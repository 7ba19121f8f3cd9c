import WindbgMcp.Ioctl.Labels
import WindbgMcp.Ioctl.Map
import WindbgMcp.Library.Fallible

/-! The edges of a resolved table: what every slot selects, what is read back out of the list of
control codes, and when the two are the same. -/
namespace WindbgMcp.Ioctl
open Driver (Flow JumpTables)
open Walk (Halt)
open Library

def Located.slots (located : Located) : List (Nat × Option Nat) :=
  located.cases.zipIdx.map fun entry =>
    ((entry.2 + asU64 located.bound.offset) % 2 ^ 64, located.target entry.1)

/-- What the walk over the entries makes of the slots it has not seen yet. -/
structure Follows (located : Located) (slots : List (Nat × Option Nat))
    (found found' : List (Nat × Nat)) (reached reached' : Option Nat) : Prop where
  cases : ∀ case, case ∈ found' ↔
    case ∈ found ∨ (case.1, some case.2) ∈ slots ∧ located.bound.default ≠ some case.2
  default : ∀ target, reached' = some target ↔
    reached = some target ∨
      located.bound.default = some target ∧ ∃ slot ∈ slots, slot.2 = some target
  known : ∀ slot ∈ slots, ∃ target, slot.2 = some target

theorem followSlots_spec {located : Located} {inImage : Nat → Bool} {cases : List Nat}
    {position : Nat} {found found' : List (Nat × Nat)} {reached reached' : Option Nat}
    (hown : ∀ target, reached = some target → located.bound.default = some target)
    (hfollowed : followSlots located inImage cases position found reached =
      some (found', reached')) :
    Follows located ((cases.zipIdx position).map fun entry =>
      ((entry.2 + asU64 located.bound.offset) % 2 ^ 64, located.target entry.1))
      found found' reached reached' := by
  induction cases generalizing position found reached with
  | nil =>
    cases hfollowed
    exact ⟨by simp, by simp, by simp⟩
  | cons case cases ih =>
    unfold followSlots at hfollowed
    rw [List.zipIdx_cons, List.map_cons]
    split at hfollowed
    · cases hfollowed
    rename_i target hgoes
    rw [hgoes]
    split at hfollowed
    · -- The default's slot.
      rename_i hdefault
      have hrest := ih (fun other hsame => by rw [← hsame, hdefault]) hfollowed
      refine ⟨fun listed => ?_, fun other => ?_, ?_⟩
      · rw [hrest.cases, List.mem_cons, hdefault]
        grind
      · rw [hrest.default]
        constructor
        · intro harrives
          have hsame : some target = some other := by
            cases harrives with
            | inl hsame => exact hsame
            | inr hbehind => exact hdefault ▸ hbehind.1
          exact .inr ⟨hdefault.trans hsame, _, List.mem_cons_self, hsame⟩
        · intro harrives
          cases harrives with
          | inl hbefore => exact .inl (hdefault.symm.trans (hown other hbefore))
          | inr hhere => exact .inl (hdefault.symm.trans hhere.1)
      · simpa using hrest.known
    split at hfollowed
    · cases hfollowed
    · rename_i hother _
      have hrest := ih hown hfollowed
      refine ⟨fun listed => ?_, fun other => ?_, ?_⟩
      · rw [hrest.cases, List.mem_append, List.mem_singleton, List.mem_cons]
        grind
      · rw [hrest.default]
        simp only [List.mem_cons, exists_eq_or_imp]
        grind
      · simpa using hrest.known

theorem refused_eq_ok {α : Type} {capped : Bool} {value : Option α} {result : α} :
    refused capped value = .ok result ↔ value = some result := by
  cases value <;> simp [refused]

theorem require_eq_ok {capped : Bool} {condition : Prop} [Decidable condition] {result : Unit} :
    require capped condition = .ok result ↔ condition := by
  unfold require
  split <;> simp_all

theorem casesOf_length {instructions : List Instruction} {arrived : Facts} {layout : Layout}
    {reader : Reader} {switch : Switch} {entries : Nat} {cases : List Nat}
    (hfound : casesOf instructions arrived layout reader switch entries = .ok cases) :
    cases.length = entries := by
  unfold casesOf at hfound
  split at hfound
  · simp only [bind_eq_ok, refused_eq_ok, require_eq_ok] at hfound
    obtain ⟨_, _, bytes, _, _, hlength, hmade⟩ := hfound
    cases hmade
    rw [List.length_map, hlength]
  · cases hfound
    exact List.length_range

theorem locate_slots {instructions : List Instruction} {jump : Instruction} {arrived : Facts}
    {layout : Layout} {reader : Reader} {located : Located}
    (hfound : locate instructions jump arrived layout reader = .ok located) :
    located.slots.length = located.bound.limit + 1 := by
  unfold locate at hfound
  simp only [bind_eq_ok, refused_eq_ok, require_eq_ok] at hfound
  obtain ⟨_, _, bound, _, _, _, _, _, _, _, _, _, _, _, _, _, _, _, _, _, cases, hlisted, _, _, _,
    _, _, _, hmade⟩ := hfound
  cases hmade
  unfold Located.slots
  rw [List.length_map, List.length_zipIdx]
  exact casesOf_length hlisted

theorem followTable_ok {instructions : List Instruction} {jump : Instruction} {arrived : Facts}
    {layout : Layout} {reader : Reader} {inImage : Nat → Bool} {resolved : Resolved}
    (hfollowed :
      followTable instructions jump arrived layout (some reader) inImage = .ok resolved) :
    ∃ located, locate instructions jump arrived layout reader = .ok located ∧
      followSlots located inImage located.cases 0 [] none =
        some (resolved.cases, resolved.table.default) ∧
      resolved.table.jump = jump.address := by
  unfold followTable at hfollowed
  simp only [bind_eq_ok, refused_eq_ok] at hfollowed
  obtain ⟨_, hreads, located, hfound, slots, hfollowed, hmade⟩ := hfollowed
  cases hreads
  cases hmade
  exact ⟨located, hfound, hfollowed, rfl⟩

theorem followTable_of {instructions : List Instruction} {jump : Instruction} {arrived : Facts}
    {layout : Layout} {reader : Reader} {inImage : Nat → Bool} {located : Located}
    {slots : List (Nat × Nat) × Option Nat}
    (hfound : locate instructions jump arrived layout reader = .ok located)
    (hfollowed : followSlots located inImage located.cases 0 [] none = some slots) :
    followTable instructions jump arrived layout (some reader) inImage =
      .ok { table := { jump := jump.address, table := located.table, entries := located.entries
                       followed := slots.1.length, default := slots.2 }
            cases := slots.1
            proved := located.bound.proved
            status := (factsAt instructions arrived layout instructions.length).status } := by
  unfold followTable
  simp only [bind_eq_ok, refused_eq_ok]
  exact ⟨reader, rfl, located, hfound, slots, hfollowed, rfl⟩

def Map.listed (map : Map) : List (Nat × Nat) :=
  (map.cases.filter fun case => case.recovered == .jumpTable).map fun case =>
    (case.site, case.lands)

/-- One part of the recording, where no bound was hit: what was there stays, and these edges and
tables are added. -/
structure Grows (before after : Map) (edges : List (Nat × Nat)) (tables : List Table) : Prop where
  halted : after.halted = before.halted
  unsettled : after.unsettled = before.unsettled
  uncapped : after.capHit = false → before.capHit = false
  listed : after.capHit = false → after.listed = before.listed ++ edges
  tables : after.capHit = false → after.tables = before.tables ++ tables

theorem Grows.refl (map : Map) : Grows map map [] [] :=
  ⟨rfl, rfl, id, fun _ => (List.append_nil _).symm, fun _ => (List.append_nil _).symm⟩

theorem Grows.trans {first second third : Map} {edges edges' : List (Nat × Nat)}
    {tables tables' : List Table} (hleft : Grows first second edges tables)
    (hright : Grows second third edges' tables') :
    Grows first third (edges ++ edges') (tables ++ tables') where
  halted := hright.halted.trans hleft.halted
  unsettled := hright.unsettled.trans hleft.unsettled
  uncapped hclear := hleft.uncapped (hright.uncapped hclear)
  listed hclear := by
    rw [hright.listed hclear, hleft.listed (hright.uncapped hclear), List.append_assoc]
  tables hclear := by
    rw [hright.tables hclear, hleft.tables (hright.uncapped hclear), List.append_assoc]

theorem Grows.foldl {α : Type} {step : Map → α → Map} {edges : α → List (Nat × Nat)}
    {tables : α → List Table}
    (hgrows : ∀ map item, Grows map (step map item) (edges item) (tables item))
    (items : List α) (map : Map) :
    Grows map (items.foldl step map) (items.flatMap edges) (items.flatMap tables) := by
  induction items generalizing map with
  | nil => exact .refl map
  | cons item items ih => exact (hgrows map item).trans (ih _)

theorem Grows.aside {before after : Map} (hhalted : after.halted = before.halted)
    (hunsettled : after.unsettled = before.unsettled)
    (huncapped : after.capHit = false → before.capHit = false)
    (hcases : after.cases = before.cases) (htables : after.tables = before.tables) :
    Grows before after [] [] where
  halted := hhalted
  unsettled := hunsettled
  uncapped := huncapped
  listed _ := by
    unfold Map.listed
    rw [hcases, List.append_nil]
  tables _ := by rw [htables, List.append_nil]

theorem Grows.capped {before after : Map} {edges : List (Nat × Nat)} {tables : List Table}
    (hhalted : after.halted = before.halted) (hunsettled : after.unsettled = before.unsettled)
    (hcapped : after.capHit = true) : Grows before after edges tables where
  halted := hhalted
  unsettled := hunsettled
  uncapped hclear := by rw [hcapped] at hclear; cases hclear
  listed hclear := by rw [hcapped] at hclear; cases hclear
  tables hclear := by rw [hcapped] at hclear; cases hclear

/-- A code that fits a `ULONG` is listed; one that does not is dropped, and nothing says so. -/
theorem grows_pushCase (map : Map) (code : Nat) (recovered : Recovery) (site lands : Nat)
    (proved : Bool) (status : Status) :
    Grows map (pushCase map code recovered site lands proved status)
      (if isUlong code && recovered == .jumpTable then [(site, lands)] else []) [] := by
  unfold pushCase
  cases isUlong code with
  | false => exact .refl map
  | true =>
    rw [if_pos rfl]
    dsimp only
    split
    · exact .capped rfl rfl rfl
    · refine ⟨rfl, rfl, id, fun _ => ?_, fun _ => (List.append_nil _).symm⟩
      unfold Map.listed
      cases recovered <;> simp

theorem grows_pushFound (map : Map) (found : Found) : Grows map (pushFound map found) [] [] := by
  unfold pushFound
  simpa using grows_pushCase map found.code .compare found.site found.lands found.proved {}

def Resolved.listed (resolved : Resolved) : List (Nat × Nat) :=
  (resolved.cases.filter fun case => isUlong case.1).map fun case =>
    (resolved.table.jump, case.2)

theorem flatMap_quiet {α β : Type} (items : List α) :
    items.flatMap (fun _ => ([] : List β)) = [] :=
  List.flatMap_eq_nil_iff.mpr fun _ _ => rfl

theorem grows_pushTable (map : Map) (resolved : Resolved) :
    Grows map (pushTable map resolved) resolved.listed [resolved.table] := by
  have hcases := Grows.foldl (fun map (found : Nat × Nat) => grows_pushCase map found.1 .jumpTable
    resolved.table.jump found.2 resolved.proved resolved.status) resolved.cases map
  have hedges : resolved.cases.flatMap (fun found =>
      if isUlong found.1 && Recovery.jumpTable == .jumpTable then
        [(resolved.table.jump, found.2)] else []) = resolved.listed := by
    unfold Resolved.listed
    induction resolved.cases with
    | nil => rfl
    | cons case cases ih =>
      rw [List.flatMap_cons, ih, List.filter_cons]
      cases isUlong case.1 <;> simp
  rw [hedges, flatMap_quiet] at hcases
  unfold pushTable
  dsimp only
  split
  · have hbehind : ∀ map : Map, Grows map { map with tables := map.tables ++ [resolved.table] } []
        [resolved.table] :=
      fun map => ⟨rfl, rfl, id, fun _ => (List.append_nil _).symm, fun _ => rfl⟩
    have hboth := hcases.trans (hbehind _)
    rw [List.append_nil, List.nil_append] at hboth
    exact hboth
  · exact .capped hcases.halted hcases.unsettled rfl

theorem grows_pushUntracked (map : Map) (site : Nat) :
    Grows map (pushUntracked map site) [] [] := by
  unfold pushUntracked
  split
  · exact .aside rfl rfl id rfl rfl
  · exact .capped rfl rfl rfl

theorem grows_pushUnresolved (map : Map) (site : Nat) :
    Grows map (pushUnresolved map site) [] [] := by
  unfold pushUnresolved
  split
  · exact .aside rfl rfl id rfl rfl
  · exact .capped rfl rfl rfl

theorem grows_record (map : Map) (run : Run) :
    Grows map (record map run) (run.table.toList.flatMap Resolved.listed)
      (run.table.toList.flatMap fun resolved => [resolved.table]) := by
  have hcounted : Grows map { map with
      traced := map.traced || run.traced, capHit := map.capHit || run.capped
      blind := map.blind + run.blind, examined := map.examined + run.examined } [] [] :=
    .aside rfl rfl (fun hclear => (Bool.or_eq_false_iff.mp hclear).1) rfl rfl
  have hfound := Grows.foldl grows_pushFound run.cases
  have htables := Grows.foldl grows_pushTable run.table.toList
  have huntracked := Grows.foldl grows_pushUntracked run.untracked
  have hunresolved := Grows.foldl grows_pushUnresolved run.unresolved.toList
  have hwhole := (((hcounted.trans (hfound _)).trans (htables _)).trans (huntracked _)).trans
    (hunresolved _)
  simp only [flatMap_quiet, List.nil_append, List.append_nil] at hwhole
  exact hwhole

theorem recordBlocks_of_running {walk : Nat → Run} {halt : Polls} {order : List Nat} {map : Map}
    {polls : Nat} (hrunning : (recordBlocks walk halt order map polls).1.halted = none) :
    (recordBlocks walk halt order map polls).1 =
      order.foldl (fun map index => record map (walk index)) map := by
  induction order generalizing map polls with
  | nil => rfl
  | cons index order ih =>
    unfold recordBlocks at hrunning ⊢
    split at hrunning
    · rename_i hstopped
      rw [hrunning] at hstopped
      cases hstopped
    rename_i hgoing
    rw [if_neg hgoing]
    split at hrunning
    · cases hrunning
    · exact ih hrunning

theorem enrich_of_running {halt : Polls} {left : Nat} {halted : Option Halt} {polls : Nat}
    (hrunning : (enrich halt left halted polls).2 = none) :
    halted = none ∧ (enrich halt left halted polls).1 = left := by
  induction left generalizing halted polls with
  | zero => exact ⟨hrunning, rfl⟩
  | succ left ih =>
    unfold enrich at hrunning ⊢
    split at hrunning
    · rename_i hstopped
      rw [show halted = none from hrunning] at hstopped
      cases hstopped
    rename_i hgoing
    have hopen' : halted = none := by simpa using hgoing
    rw [if_neg hgoing]
    split at hrunning
    · cases hrunning
    · exact ⟨hopen', congrArg (· + 1) (ih hrunning).2⟩

theorem pollOnce_of_running {halt : Polls} {state : Map × Nat}
    (hrunning : (pollOnce halt state).1.halted = none) :
    state.1.halted = none ∧ (pollOnce halt state).1 = state.1 := by
  unfold pollOnce at hrunning ⊢
  cases hhalted : state.1.halted with
  | some why =>
    rw [hhalted] at hrunning
    simp [hhalted] at hrunning
  | none =>
    simp only [hhalted, Option.isSome_none, Bool.false_eq_true, if_false] at hrunning ⊢
    refine ⟨trivial, ?_⟩
    rw [hrunning, ← hhalted]

section Finished
variable {dispatch : Nat} {listing : List Instruction} {layout : Layout} {reader : Reader}
  {inImage isConstant : Nat → Bool} {halt : Polls} {sweeps : Nat}

def resolvedTables (ready : Prepared) (layout : Layout) (reader : Reader)
    (inImage : Nat → Bool) : List Resolved :=
  ready.order.filterMap fun index =>
    (recorded ready.listing layout reader inImage ready.entries index).table

theorem mapWithin_of_running
    (hrunning : (mapWithin dispatch listing layout reader inImage isConstant halt sweeps).halted =
      none) :
    let ready := prepare listing layout reader inImage isConstant halt sweeps
    mapWithin dispatch listing layout reader inImage isConstant halt sweeps =
      ready.order.foldl
        (fun map index => record map
          (recorded ready.listing layout reader inImage ready.entries index))
        { dispatch, halted := ready.halted, capHit := ready.capHit
          unsettled := ready.unsettled } := by
  intro ready
  unfold mapWithin at hrunning ⊢
  dsimp only at hrunning ⊢
  have hlooked := enrich_of_running hrunning
  have hpolled := pollOnce_of_running hlooked.1
  have hrecorded := recordBlocks_of_running hpolled.1
  rw [hrunning, hlooked.2, List.take_length, ← hrecorded, ← hpolled.2]
  generalize (pollOnce halt _).1 = map at hlooked
  rw [← hlooked.1]

theorem mapWithin_of_finished
    (hrunning : (mapWithin dispatch listing layout reader inImage isConstant halt sweeps).halted =
      none)
    (huncapped : (mapWithin dispatch listing layout reader inImage isConstant halt sweeps).capHit =
      false) :
    let resolved := resolvedTables
      (prepare listing layout reader inImage isConstant halt sweeps) layout reader inImage
    let map := mapWithin dispatch listing layout reader inImage isConstant halt sweeps
    map.listed = resolved.flatMap Resolved.listed ∧ map.tables = resolved.map Resolved.table := by
  intro resolved map
  have hfolded := mapWithin_of_running hrunning
  dsimp only at hfolded
  have hgrown := Grows.foldl (fun map index => grows_record map (recorded
    (prepare listing layout reader inImage isConstant halt sweeps).listing layout reader inImage
    (prepare listing layout reader inImage isConstant halt sweeps).entries index))
    (prepare listing layout reader inImage isConstant halt sweeps).order
    { dispatch, halted := (prepare listing layout reader inImage isConstant halt sweeps).halted
      capHit := (prepare listing layout reader inImage isConstant halt sweeps).capHit
      unsettled := (prepare listing layout reader inImage isConstant halt sweeps).unsettled }
  rw [← hfolded] at hgrown
  unfold resolved resolvedTables
  rw [List.filterMap_eq_flatMap_toList, List.map_eq_flatMap, List.flatMap_assoc, List.flatMap_assoc]
  exact ⟨(hgrown.listed huncapped).trans (List.nil_append _),
    (hgrown.tables huncapped).trans (List.nil_append _)⟩

end Finished

def blockInstructions (listing : List Instruction) (index : Nat) : List Instruction :=
  let block := (graph listing).blocks.getD index { start := 0, stop := 0 }
  (listing.take block.stop).drop block.start

def resolvedAt (ready : Prepared) (layout : Layout) (reader : Reader) (inImage : Nat → Bool)
    (index : Nat) : Option (Nat × Located) :=
  let instructions := blockInstructions ready.listing index
  instructions.getLast?.bind fun last =>
    if last.flow = .jmp none then
      match locate instructions.dropLast last ((ready.entries.getD index none).getD {}) layout
          reader with
      | .ok located =>
        if (followSlots located inImage located.cases 0 [] none).isSome then
          some (last.address, located)
        else none
      | .error _ => none
    else none

section Resolved
variable {ready : Prepared} {layout : Layout} {reader : Reader} {inImage : Nat → Bool}
  {index : Nat}

theorem terminate_table {state : Walking} {settled : Option Bool} {front : List Instruction}
    {last : Instruction} {entry : Facts} {next : Option Nat} {layout : Layout}
    {reader : Option Reader} {inImage : Nat → Bool} {resolved : Resolved} :
    (terminate state settled front last entry next layout reader inImage).2.table =
        some resolved ↔
      last.flow = .jmp none ∧
        followTable front last entry layout reader inImage = .ok resolved := by
  unfold terminate
  split
  · rename_i hflow
    rw [hflow]
    split <;> simp
  · rename_i hflow
    rw [hflow]
    split <;> simp_all
  · rename_i hindirect
    simp only [reduceCtorEq, false_iff, not_and]
    exact fun hflow => absurd hflow hindirect

theorem recorded_table {resolved : Resolved} :
    (recorded ready.listing layout reader inImage ready.entries index).table = some resolved ↔
      ∃ last, (blockInstructions ready.listing index).getLast? = some last ∧
        last.flow = .jmp none ∧
        followTable (blockInstructions ready.listing index).dropLast last
          ((ready.entries.getD index none).getD {}) layout (some reader) inImage =
            .ok resolved := by
  unfold recorded simulate walkBlock blockInstructions
  dsimp only
  generalize (List.take _ ready.listing).drop _ = instructions
  cases hfinal : instructions.getLast? with
  | none => simp
  | some last =>
    simp only [Option.some.injEq, exists_eq_left']
    exact terminate_table

/-- A table the map holds is one a block's switch resolved to, and its codes and its default are
what the slots of that switch select. -/
theorem resolvedAt_of_table {resolved : Resolved}
    (hfound : (recorded ready.listing layout reader inImage ready.entries index).table =
      some resolved) :
    ∃ located, resolvedAt ready layout reader inImage index =
        some (resolved.table.jump, located) ∧
      Follows located located.slots [] resolved.cases none resolved.table.default := by
  obtain ⟨last, hfinal, hflow, hfollowed⟩ := recorded_table.mp hfound
  obtain ⟨located, hparts, hslots, hjump⟩ := followTable_ok hfollowed
  refine ⟨located, ?_, followSlots_spec (fun _ hsame => by cases hsame) hslots⟩
  unfold resolvedAt
  dsimp only
  rw [hfinal, Option.bind_some, if_pos hflow, hparts, hjump]
  simp [hslots]

theorem resolvedAt_parts {site : Nat} {located : Located}
    (hfound : resolvedAt ready layout reader inImage index = some (site, located)) :
    ∃ last slots, (blockInstructions ready.listing index).getLast? = some last ∧
      last.flow = .jmp none ∧ last.address = site ∧
      locate (blockInstructions ready.listing index).dropLast last
        ((ready.entries.getD index none).getD {}) layout reader = .ok located ∧
      followSlots located inImage located.cases 0 [] none = some slots := by
  unfold resolvedAt at hfound
  obtain ⟨last, hfinal, hfound⟩ := Option.bind_eq_some_iff.mp hfound
  split at hfound
  case isFalse => cases hfound
  rename_i hflow
  split at hfound
  case h_2 => cases hfound
  rename_i hparts
  split at hfound
  case isFalse => cases hfound
  rename_i hcomplete
  obtain ⟨slots, hfollowed⟩ := Option.isSome_iff_exists.mp hcomplete
  cases hfound
  exact ⟨last, slots, hfinal, hflow, rfl, hparts, hfollowed⟩

theorem table_of_resolvedAt {site : Nat} {located : Located}
    (hfound : resolvedAt ready layout reader inImage index = some (site, located)) :
    ∃ resolved, (recorded ready.listing layout reader inImage ready.entries index).table =
        some resolved ∧ resolved.table.jump = site := by
  obtain ⟨last, slots, hfinal, hflow, haddress, hparts, hfollowed⟩ := resolvedAt_parts hfound
  exact ⟨_, recorded_table.mpr ⟨last, hfinal, hflow, followTable_of hparts hfollowed⟩, haddress⟩

theorem resolvedAt_slots {site : Nat} {located : Located}
    (hfound : resolvedAt ready layout reader inImage index = some (site, located)) :
    located.slots.length = located.bound.limit + 1 := by
  obtain ⟨_, _, _, _, _, hparts, _⟩ := resolvedAt_parts hfound
  exact locate_slots hparts

end Resolved

def OwnSites (listing : List Instruction) : Prop :=
  ∀ (place other : Nat) (jump jump' : Instruction), listing[place]? = some jump →
    listing[other]? = some jump' → jump.flow = .jmp none → jump'.flow = .jmp none →
    jump.address = jump'.address → place = other

theorem resolvedAt_site {ready : Prepared} {layout : Layout} {reader : Reader}
    {inImage : Nat → Bool} {index site : Nat} {located : Located}
    (hfound : resolvedAt ready layout reader inImage index = some (site, located)) :
    ∃ block last, (graph ready.listing).blocks[index]? = some block ∧ 0 < block.stop ∧
      ready.listing[block.stop - 1]? = some last ∧ last.flow = .jmp none ∧
      last.address = site := by
  obtain ⟨last, _, hfinal, hflow, haddress, _, _⟩ := resolvedAt_parts hfound
  unfold blockInstructions at hfinal
  cases hheld : (graph ready.listing).blocks[index]? with
  | none =>
    rw [List.getD_eq_getElem?_getD, hheld] at hfinal
    simp at hfinal
  | some block =>
    rw [getD_of_held hheld] at hfinal
    have hspec := graph_block_spec hheld
    rw [List.getLast?_drop, List.getLast?_take] at hfinal
    split at hfinal
    · cases hfinal
    split at hfinal
    · cases hfinal
    rename_i hpositive
    have hstands : block.stop - 1 < ready.listing.length := by omega
    rw [List.getElem?_eq_getElem hstands] at hfinal
    refine ⟨block, last, rfl, by omega, ?_, hflow, haddress⟩
    rw [List.getElem?_eq_getElem hstands]
    exact hfinal

theorem resolvedAt_injective {ready : Prepared} {layout : Layout} {reader : Reader}
    {inImage : Nat → Bool} {index other site : Nat} {located located' : Located}
    (hown : OwnSites ready.listing)
    (hfound : resolvedAt ready layout reader inImage index = some (site, located))
    (hfound' : resolvedAt ready layout reader inImage other = some (site, located')) :
    index = other := by
  obtain ⟨block, last, hheld, hnonempty, hfinal, hflow, haddress⟩ := resolvedAt_site hfound
  obtain ⟨block', last', hheld', hnonempty', hfinal', hflow', haddress'⟩ := resolvedAt_site hfound'
  have hplaces := hown _ _ last last' hfinal hfinal' hflow hflow' (haddress.trans haddress'.symm)
  exact stops_injective hheld hheld' (by omega)

theorem ownSites_of_nodup {listing : List Instruction}
    (honce : (listing.map Instruction.address).Nodup) : OwnSites listing := by
  intro place other jump jump' hstands hstands' _ _ hsame
  obtain ⟨hbound, hstands⟩ := List.getElem?_eq_some_iff.mp hstands
  obtain ⟨hbound', hstands'⟩ := List.getElem?_eq_some_iff.mp hstands'
  apply (@List.Nodup.getElem_inj_iff _ _ honce _ (by simpa using hbound) _
    (by simpa using hbound')).mp
  simp [hstands, hstands', hsame]

theorem OwnSites.prepare {listing : List Instruction} (hown : OwnSites listing) (layout : Layout)
    (reader : Reader) (inImage isConstant : Nat → Bool) (halt : Polls) (sweeps : Nat) :
    OwnSites (prepare listing layout reader inImage isConstant halt sweeps).listing := by
  have hkept : ∀ asked instruction, (putBack layout asked instruction).flow = instruction.flow ∧
      (putBack layout asked instruction).address = instruction.address := by
    intro asked instruction
    unfold putBack
    split <;> exact ⟨rfl, rfl⟩
  have hlisted : (Ioctl.prepare listing layout reader inImage isConstant halt sweeps).listing =
      (withPoolImmediates listing layout reader isConstant halt).1 := rfl
  rw [hlisted]
  unfold withPoolImmediates
  split
  · exact hown
  intro place other jump jump' hstands hstands' hflow hflow' haddress
  simp only [List.getElem?_map, Option.map_eq_some_iff] at hstands hstands'
  obtain ⟨before, hstands, rfl⟩ := hstands
  obtain ⟨before', hstands', rfl⟩ := hstands'
  rw [(hkept _ before).1] at hflow
  rw [(hkept _ before').1] at hflow'
  rw [(hkept _ before).2, (hkept _ before').2] at haddress
  exact hown place other before before' hstands hstands' hflow hflow' haddress

theorem mem_at_iff {tables : JumpTables} (honce : (tables.targets.map Prod.fst).Nodup)
    {site target : Nat} :
    target ∈ tables.at site ↔ ∃ entry ∈ tables.targets, entry.1 = site ∧ target ∈ entry.2 := by
  unfold JumpTables.at
  generalize tables.targets = listed at honce
  induction listed with
  | nil => simp
  | cons entry targets ih =>
    rw [List.map_cons, List.nodup_cons] at honce
    rw [List.lookup_cons]
    by_cases hsame : site = entry.1
    · have halone : ¬∃ other ∈ targets, other.1 = site ∧ target ∈ other.2 := by
        intro helsewhere
        obtain ⟨other, hmember, hkey, _⟩ := helsewhere
        exact honce.1 (List.mem_map.mpr ⟨other, hmember, hkey.trans hsame⟩)
      rw [beq_iff_eq.mpr hsame]
      simp only [List.mem_cons, exists_eq_or_imp, halone, or_false, ← hsame, true_and]
      rfl
    · rw [beq_eq_false_iff_ne.mpr hsame]
      simp only [List.mem_cons, exists_eq_or_imp, Ne.symm hsame, false_and, false_or]
      exact ih honce.2

/-- Every slot whose entry is not the default's has one with its target among the codes that fit
a `ULONG`. -/
def Located.Covered (located : Located) : Prop :=
  ∀ slot ∈ located.slots, slot.2 ≠ located.bound.default →
    ∃ other ∈ located.slots, other.2 = slot.2 ∧ isUlong other.1 = true

instance (located : Located) : Decidable located.Covered :=
  inferInstanceAs (Decidable (∀ slot ∈ located.slots, slot.2 ≠ located.bound.default →
    ∃ other ∈ located.slots, other.2 = slot.2 ∧ isUlong other.1 = true))

/-- Reachability is given every edge of every table: each site and each target once, every site a
table's, and under a table's site exactly where its slots go. -/
structure EveryEdge (result : JumpTables) (map : Map) (ready : Prepared) (layout : Layout)
    (reader : Reader) (inImage : Nat → Bool) : Prop where
  once : (result.targets.map Prod.fst).Nodup
  distinct : ∀ entry ∈ result.targets, entry.2.Nodup
  sites : ∀ entry ∈ result.targets, ∃ table ∈ map.tables, table.jump = entry.1
  edges : ∀ table ∈ map.tables, ∃ index ∈ ready.order, ∃ located,
    resolvedAt ready layout reader inImage index = some (table.jump, located) ∧
      located.slots.length = located.bound.limit + 1 ∧
      ∀ target, target ∈ result.at table.jump ↔ some target ∈ located.slots.map Prod.snd

section JumpTargets
variable {dispatch : Nat} {listing : List Instruction} {layout : Layout} {reader : Reader}
  {inImage isConstant : Nat → Bool} {halt : Polls}
  (hunbounded :
    (jumpTargets dispatch listing layout reader inImage isConstant halt).bounded = false)
  (hrunning : (jumpTargets dispatch listing layout reader inImage isConstant halt).stopped = none)
include hunbounded hrunning

theorem map_of_finished :
    (map dispatch listing layout reader inImage isConstant halt).halted = none ∧
      (map dispatch listing layout reader inImage isConstant halt).capHit = false ∧
      (map dispatch listing layout reader inImage isConstant halt).unsettled = false := by
  unfold jumpTargets jumpTargetsWithin at hunbounded hrunning
  unfold map
  generalize mapWithin dispatch listing layout reader inImage isConstant halt maxSweeps = found at *
  dsimp only at hunbounded hrunning
  split at hrunning
  · rename_i hshort
    rw [if_pos hshort] at hunbounded
    dsimp only at hunbounded hrunning
    rw [hrunning, Option.isSome_none, Bool.false_or] at hshort
    rw [hshort, Bool.or_true] at hunbounded
    cases hunbounded
  · rename_i hlong
    rw [if_neg hlong] at hunbounded
    have hclear := Bool.or_eq_false_iff.mp hunbounded
    refine ⟨?_, hclear⟩
    cases hhalted : found.halted with
    | none => rfl
    | some why => simp [hhalted] at hlong

theorem jumpTargets_targets :
    (jumpTargets dispatch listing layout reader inImage isConstant halt).targets =
      (((map dispatch listing layout reader inImage isConstant halt).listed ++
        (map dispatch listing layout reader inImage isConstant halt).tables.filterMap
          fun table => table.default.map fun default => (table.jump, default)).foldl
        Groups.file []).map fun group => (group.1, sortedSet group.2) := by
  have hfinished := map_of_finished hunbounded hrunning
  unfold map at hfinished ⊢
  unfold jumpTargets jumpTargetsWithin
  generalize mapWithin dispatch listing layout reader inImage isConstant halt maxSweeps = found
    at hfinished ⊢
  dsimp only
  rw [if_neg (by simp [hfinished.1, hfinished.2.2])]
  rfl

theorem jumpTargets_once :
    ((jumpTargets dispatch listing layout reader inImage isConstant halt).targets.map
      Prod.fst).Nodup := by
  have hkeys : (Prod.fst ∘ fun group : Nat × List Nat => (group.1, sortedSet group.2)) = Prod.fst :=
    rfl
  rw [jumpTargets_targets hunbounded hrunning, List.map_map, hkeys]
  apply Groups.nodup_foldl
  exact List.nodup_nil

theorem mem_jumpTargets_at {site target : Nat} :
    target ∈ (jumpTargets dispatch listing layout reader inImage isConstant halt).at site ↔
      ∃ resolved ∈ resolvedTables
          (prepare listing layout reader inImage isConstant halt maxSweeps) layout reader inImage,
        resolved.table.jump = site ∧
          ((∃ code, (code, target) ∈ resolved.cases ∧ isUlong code = true) ∨
            resolved.table.default = some target) := by
  have hfinished := map_of_finished hunbounded hrunning
  have hheld := mapWithin_of_finished hfinished.1 hfinished.2.1
  rw [mem_at_iff (jumpTargets_once hunbounded hrunning), jumpTargets_targets hunbounded hrunning]
  have hfiled := @Groups.filed_foldl Nat Nat _
    ((map dispatch listing layout reader inImage isConstant halt).listed ++
      (map dispatch listing layout reader inImage isConstant halt).tables.filterMap
        fun table => table.default.map fun default => (table.jump, default)) [] site target
  unfold Groups.Filed at hfiled
  simp only [List.not_mem_nil, false_and, exists_false, false_or] at hfiled
  have hgrouped : ∀ groups : Groups Nat Nat,
      (∃ entry ∈ groups.map fun group => (group.1, sortedSet group.2),
        entry.1 = site ∧ target ∈ entry.2) ↔
      ∃ group ∈ groups, group.1 = site ∧ target ∈ group.2 := by
    intro groups
    simp only [List.mem_map, exists_exists_and_eq_and, mem_sortedSet]
  rw [hgrouped, hfiled]
  unfold map
  rw [hheld.1, hheld.2]
  generalize resolvedTables _ layout reader inImage = resolved
  rw [List.mem_append, List.mem_flatMap, List.mem_filterMap]
  constructor
  · intro hnamed
    rcases hnamed with ⟨table, hmember, hnamed⟩ | ⟨table, hmember, hnamed⟩
    · obtain ⟨case, hkept, hsame⟩ := List.mem_map.mp hnamed
      have hkept := List.mem_filter.mp hkept
      cases hsame
      exact ⟨table, hmember, rfl, .inl ⟨case.1, hkept.1, hkept.2⟩⟩
    · obtain ⟨owner, howned, hown⟩ := List.mem_map.mp hmember
      obtain ⟨default, hknown, hsame⟩ := Option.map_eq_some_iff.mp hnamed
      cases hsame
      exact ⟨owner, howned, congrArg Table.jump hown, .inr (hown ▸ hknown)⟩
  · intro hselected
    obtain ⟨table, hmember, hsame, hselected⟩ := hselected
    cases hselected with
    | inl hlisted =>
      obtain ⟨code, hcase, hsmall⟩ := hlisted
      refine .inl ⟨table, hmember, List.mem_map.mpr ⟨(code, target), ?_, by rw [hsame]⟩⟩
      exact List.mem_filter.mpr ⟨hcase, hsmall⟩
    | inr hknown =>
      refine .inr ⟨table.table, List.mem_map_of_mem hmember, ?_⟩
      rw [hknown, hsame]
      rfl

theorem jumpTargets_sites :
    (∀ entry ∈ (jumpTargets dispatch listing layout reader inImage isConstant halt).targets,
      entry.2.Nodup) ∧
    ∀ entry ∈ (jumpTargets dispatch listing layout reader inImage isConstant halt).targets,
      ∃ table ∈ (map dispatch listing layout reader inImage isConstant halt).tables,
        table.jump = entry.1 := by
  have hfinished := map_of_finished hunbounded hrunning
  have hheld := mapWithin_of_finished hfinished.1 hfinished.2.1
  have hlisted := jumpTargets_targets hunbounded hrunning
  constructor
  · intro entry hmember
    rw [hlisted] at hmember
    obtain ⟨group, _, rfl⟩ := List.mem_map.mp hmember
    exact List.nodup_dedup _
  · intro entry hmember
    have hstands : ∃ target,
        target ∈
          (jumpTargets dispatch listing layout reader inImage isConstant halt).at entry.1 := by
      rw [hlisted] at hmember
      obtain ⟨group, hopened, hsame⟩ := List.mem_map.mp hmember
      have hoccupied := Groups.occupied_foldl (fun _ hnone => (by cases hnone)) group hopened
      obtain ⟨target, hfiled⟩ := List.exists_mem_of_ne_nil _ hoccupied
      refine ⟨target, (mem_at_iff (jumpTargets_once hunbounded hrunning)).mpr ⟨entry, ?_, rfl, ?_⟩⟩
      · rw [hlisted]
        exact hmember
      · rw [← hsame]
        exact mem_sortedSet.mpr hfiled
    obtain ⟨target, hstands⟩ := hstands
    obtain ⟨resolved, hrecorded, hsite, _⟩ := (mem_jumpTargets_at hunbounded hrunning).mp hstands
    refine ⟨resolved.table, ?_, hsite⟩
    unfold map
    rw [hheld.2]
    exact List.mem_map_of_mem hrecorded

/-- Under the site of a resolved switch: the default, where a slot goes there, and the slots
whose codes fit a `ULONG`. -/
theorem mem_at_resolved (hown : OwnSites listing) {index site target : Nat} {located : Located}
    (hwalked : index ∈ (prepare listing layout reader inImage isConstant halt maxSweeps).order)
    (hfound : resolvedAt (prepare listing layout reader inImage isConstant halt maxSweeps) layout
      reader inImage index = some (site, located)) :
    target ∈ (jumpTargets dispatch listing layout reader inImage isConstant halt).at site ↔
      ∃ slot ∈ located.slots, slot.2 = some target ∧
        (located.bound.default = some target ∨ isUlong slot.1 = true) := by
  have honly := hown.prepare layout reader inImage isConstant halt maxSweeps
  obtain ⟨resolved, htabled, hjump⟩ := table_of_resolvedAt hfound
  obtain ⟨located', hfound', hfollows⟩ := resolvedAt_of_table htabled
  rw [hfound, Option.some.injEq, Prod.mk.injEq] at hfound'
  cases hfound'.2
  rw [mem_jumpTargets_at hunbounded hrunning]
  constructor
  · intro hselected
    obtain ⟨other, hrecorded, hsame, hselected⟩ := hselected
    obtain ⟨place, _, htabled'⟩ := List.mem_filterMap.mp hrecorded
    obtain ⟨_, hfoundOther, _⟩ := resolvedAt_of_table htabled'
    rw [hsame] at hfoundOther
    -- The table of this site is this block's.
    cases resolvedAt_injective honly hfound hfoundOther
    rw [htabled] at htabled'
    cases htabled'
    rcases hselected with ⟨code, hcase, hsmall⟩ | hdefault
    · have hslot := (hfollows.cases _).mp hcase
      simp only [List.not_mem_nil, false_or] at hslot
      exact ⟨_, hslot.1, rfl, .inr hsmall⟩
    · have hslot := (hfollows.default _).mp hdefault
      simp only [reduceCtorEq, false_or] at hslot
      obtain ⟨hdefault, slot, hmember, hgoes⟩ := hslot
      exact ⟨slot, hmember, hgoes, .inl hdefault⟩
  · intro hselected
    obtain ⟨slot, hmember, hgoes, hkept⟩ := hselected
    refine ⟨resolved, List.mem_filterMap.mpr ⟨index, hwalked, htabled⟩, hjump, ?_⟩
    by_cases hdefault : located.bound.default = some target
    · exact .inr ((hfollows.default target).mpr (.inr ⟨hdefault, slot, hmember, hgoes⟩))
    · have hsmall := hkept.resolve_left hdefault
      refine .inl ⟨slot.1, (hfollows.cases _).mpr (.inr ⟨?_, hdefault⟩), hsmall⟩
      rw [← hgoes]
      exact hmember

end JumpTargets

/-- Reachability is given every edge of every resolved table exactly where each of their slots
has its target among the codes that fit a `ULONG`. -/
theorem jumpTargets_everyEdge_iff (dispatch : Nat) (listing : List Instruction) (layout : Layout)
    (reader : Reader) (inImage isConstant : Nat → Bool) (halt : Polls) (hown : OwnSites listing)
    (hunbounded : (jumpTargets dispatch listing layout reader inImage isConstant halt).bounded =
      false)
    (hrunning : (jumpTargets dispatch listing layout reader inImage isConstant halt).stopped =
      none) :
    EveryEdge (jumpTargets dispatch listing layout reader inImage isConstant halt)
        (map dispatch listing layout reader inImage isConstant halt)
        (prepare listing layout reader inImage isConstant halt maxSweeps) layout reader inImage ↔
      ∀ index ∈ (prepare listing layout reader inImage isConstant halt maxSweeps).order,
        ∀ site located,
          resolvedAt (prepare listing layout reader inImage isConstant halt maxSweeps) layout
            reader inImage index = some (site, located) → located.Covered := by
  have hfinished := map_of_finished hunbounded hrunning
  have hheld := mapWithin_of_finished hfinished.1 hfinished.2.1
  have honly := hown.prepare layout reader inImage isConstant halt maxSweeps
  constructor
  · intro hevery index hwalked site located hfound slot hmember hother
    obtain ⟨resolved, htabled, hjump⟩ := table_of_resolvedAt hfound
    obtain ⟨_, hfound', hfollows⟩ := resolvedAt_of_table htabled
    rw [hfound, Option.some.injEq, Prod.mk.injEq] at hfound'
    cases hfound'.2
    have hlisted : resolved.table ∈
        (map dispatch listing layout reader inImage isConstant halt).tables := by
      unfold map
      rw [hheld.2]
      exact List.mem_map_of_mem (List.mem_filterMap.mpr ⟨index, hwalked, htabled⟩)
    obtain ⟨place, _, _, hfoundPlace, _, hedges⟩ := hevery.edges resolved.table hlisted
    rw [hjump] at hfoundPlace hedges
    cases resolvedAt_injective honly hfound hfoundPlace
    rw [hfound, Option.some.injEq, Prod.mk.injEq] at hfoundPlace
    cases hfoundPlace.2
    obtain ⟨target, hgoes⟩ := hfollows.known slot hmember
    have hreached := (hedges target).mpr (List.mem_map.mpr ⟨slot, hmember, hgoes⟩)
    obtain ⟨kept, hselects, hsame, hkind⟩ :=
      (mem_at_resolved hunbounded hrunning hown hwalked hfound).mp hreached
    refine ⟨kept, hselects, hsame.trans hgoes.symm, hkind.resolve_left ?_⟩
    intro hdefault
    exact hother (hgoes.trans hdefault.symm)
  · intro hcovered
    have hsites := jumpTargets_sites hunbounded hrunning
    refine ⟨jumpTargets_once hunbounded hrunning, hsites.1, hsites.2, ?_⟩
    intro table hlisted
    unfold map at hlisted
    rw [hheld.2] at hlisted
    obtain ⟨resolved, hrecorded, rfl⟩ := List.mem_map.mp hlisted
    obtain ⟨index, hwalked, htabled⟩ := List.mem_filterMap.mp hrecorded
    obtain ⟨located, hfound, hfollows⟩ := resolvedAt_of_table htabled
    refine ⟨index, hwalked, located, hfound, resolvedAt_slots hfound, ?_⟩
    intro target
    rw [mem_at_resolved hunbounded hrunning hown hwalked hfound, List.mem_map]
    constructor
    · intro hselected
      obtain ⟨slot, hmember, hgoes, _⟩ := hselected
      exact ⟨slot, hmember, hgoes⟩
    · intro hselected
      obtain ⟨slot, hmember, hgoes⟩ := hselected
      by_cases hdefault : located.bound.default = some target
      · exact ⟨slot, hmember, hgoes, .inl hdefault⟩
      · obtain ⟨other, hselects, hsame, hsmall⟩ := hcovered index hwalked _ located hfound slot
          hmember (fun hsame => hdefault (hsame.symm.trans hgoes))
        exact ⟨other, hselects, hsame.trans hgoes, .inr hsmall⟩

namespace Sample

/-- Four codes from `-amount` on, switched on behind an addition: the table at `2000h` holds the
distances of the four returns behind the jump. -/
def switchOn (amount : Nat) : List Instruction :=
  [load 0x1000 (r64 "rax") (r64 "rdx") 0xb8,
    load 0x1007 (r32 "ecx" "rcx") (r64 "rax") 0x18,
    { address := 0x100a, mnemonic := "add", effect := .add, writesFlags := true
      operands := [.register (r32 "ecx" "rcx"), .immediate amount]
      writes := [r32 "ecx" "rcx"], reads := [r32 "ecx" "rcx"] },
    { address := 0x100d, mnemonic := "cmp", effect := .compare, writesFlags := true
      operands := [.register (r32 "ecx" "rcx"), .immediate 3], reads := [r32 "ecx" "rcx"] },
    { address := 0x1010, mnemonic := "ja", flow := .branch (some 0x1040)
      condition := some .unsignedAbove },
    { address := 0x1012, mnemonic := "lea", effect := .loadAddress, writes := [r64 "r8"]
      operands := [.register (r64 "r8"), .memory { address := some 0x2000 }] },
    { address := 0x1019, mnemonic := "movsxd", effect := .moveSigned, writes := [r64 "rax"]
      reads := [r64 "r8", r64 "rcx"]
      operands := [.register (r64 "rax"),
        .memory { base := some (r64 "r8"), index := some (r64 "rcx"), scale := 4
                  size := some 4 }] },
    { address := 0x101d, mnemonic := "add", effect := .add, writesFlags := true
      operands := [.register (r64 "rax"), .register (r64 "r8")]
      writes := [r64 "rax"], reads := [r64 "rax", r64 "r8"] },
    { address := 0x1020, mnemonic := "jmp", flow := .jmp none
      operands := [.register (r64 "rax")], reads := [r64 "rax"] },
    { address := 0x1022, mnemonic := "ret", flow := .ret },
    { address := 0x1024, mnemonic := "ret", flow := .ret },
    { address := 0x1026, mnemonic := "ret", flow := .ret },
    { address := 0x1028, mnemonic := "ret", flow := .ret },
    { address := 0x1040, mnemonic := "ret", flow := .ret }]

def image : Reader := fun address length =>
  if address = 0x2000 ∧ length = 16 then
    some [0x22, 0xf0, 0xff, 0xff, 0x24, 0xf0, 0xff, 0xff,
      0x26, 0xf0, 0xff, 0xff, 0x28, 0xf0, 0xff, 0xff]
  else none

def inCode (address : Nat) : Bool := 0x1000 ≤ address && address < 0x2000

def nothing (_ : Nat) : Bool := false

def never : Polls := fun _ => none

end Sample

open Sample in
/-- `add ecx,2` wraps the codes of the last two slots, which are filed past 32 bits and dropped;
with them go two edges, and nothing says so. -/
theorem wrapped_codes_lose_edges :
    let result := jumpTargets 0x1000 (switchOn 2) .x64 image inCode nothing never
    result.bounded = false ∧ result.stopped = none ∧ result.at 0x1020 = [0x1022, 0x1024] ∧
      ¬EveryEdge result (map 0x1000 (switchOn 2) .x64 image inCode nothing never)
        (prepare (switchOn 2) .x64 image inCode nothing never maxSweeps) .x64 image inCode := by
  intro result
  have hanswer : result.bounded = false ∧ result.stopped = none ∧
      result.at 0x1020 = [0x1022, 0x1024] := by decide
  refine ⟨hanswer.1, hanswer.2.1, hanswer.2.2, ?_⟩
  intro hevery
  have hown : OwnSites (switchOn 2) := ownSites_of_nodup (by decide)
  have hslots : (resolvedAt (prepare (switchOn 2) .x64 image inCode nothing never maxSweeps) .x64
      image inCode 1).map (fun found => (found.1, found.2.slots)) =
      some (0x1020, [(0xfffffffe, some 0x1022), (0xffffffff, some 0x1024),
        (0x100000000, some 0x1026), (0x100000001, some 0x1028)]) := by decide
  obtain ⟨⟨site, located⟩, hfound, hsame⟩ := Option.map_eq_some_iff.mp hslots
  simp only [Prod.mk.injEq] at hsame
  obtain ⟨index, _, other, helsewhere, _, hedges⟩ := hevery.edges
    { jump := 0x1020, table := 0x2000, entries := 4, followed := 4, default := none }
    (by decide)
  rw [hsame.1] at hfound
  cases resolvedAt_injective
    (hown.prepare .x64 image inCode nothing never maxSweeps) hfound helsewhere
  rw [hfound] at helsewhere
  cases helsewhere
  have hlost := (hedges 0x1028).mpr (by rw [hsame.2]; decide)
  rw [hanswer.2.2] at hlost
  revert hlost
  decide

open Sample in
theorem everyEdge_switchOn :
    EveryEdge (jumpTargets 0x1000 (switchOn 0xffdddffc) .x64 image inCode nothing never)
      (map 0x1000 (switchOn 0xffdddffc) .x64 image inCode nothing never)
      (prepare (switchOn 0xffdddffc) .x64 image inCode nothing never maxSweeps) .x64 image
      inCode := by
  have hown : OwnSites (switchOn 0xffdddffc) := ownSites_of_nodup (by decide)
  apply (jumpTargets_everyEdge_iff 0x1000 (switchOn 0xffdddffc) .x64 image inCode nothing never hown
    (by decide) (by decide)).mpr
  have hcovered : ∀ index ∈
      (prepare (switchOn 0xffdddffc) .x64 image inCode nothing never maxSweeps).order,
      (resolvedAt (prepare (switchOn 0xffdddffc) .x64 image inCode nothing never maxSweeps) .x64
        image inCode index).all (fun found => decide found.2.Covered) = true := by decide
  intro index hwalked site located hfound
  have hhere := hcovered index hwalked
  rw [hfound] at hhere
  exact of_decide_eq_true hhere

end WindbgMcp.Ioctl
