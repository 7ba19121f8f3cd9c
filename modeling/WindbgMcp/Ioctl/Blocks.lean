import WindbgMcp.Driver.Walk
import WindbgMcp.Ioctl.Graph
import WindbgMcp.Library.Tiling

/-! The graph of a listing says what the listing says: its blocks are consecutive
stretches of it, entered at their first instruction and left at their last, and what
is reachable along the edges of the blocks is what is reachable along the transfers of
the instructions. -/
namespace WindbgMcp.Ioctl

open Driver (Flow)
open Library Relation

theorem blockBounds_spec {length : Nat} {starts : List Nat} (hsorted : starts.Pairwise (· < ·))
    (hwithin : ∀ start ∈ starts, start ≤ length) {block : Block}
    (hmember : block ∈ blockBounds length starts) :
    block.start ∈ starts ∧ block.stop ≤ length ∧
      ∀ start ∈ starts, start ≤ block.start ∨ block.stop ≤ start := by
  fun_induction blockBounds length starts with
  | case1 => cases hmember
  | case2 start =>
    rw [List.mem_singleton] at hmember
    subst hmember
    refine ⟨List.mem_singleton_self _, Nat.le_refl _, ?_⟩
    intro other hsame
    rw [List.mem_singleton] at hsame
    exact .inl (Nat.le_of_eq hsame)
  | case3 start next starts ih =>
    have hlater := List.pairwise_cons.mp hsorted
    have hbehind := List.pairwise_cons.mp hlater.2
    rw [List.mem_cons] at hmember
    cases hmember with
    | inl hsame =>
      subst hsame
      refine ⟨List.mem_cons_self, hwithin next (by simp), ?_⟩
      intro other hfound
      simp only [List.mem_cons] at hfound
      rcases hfound with hsame | hsame | hfound
      · exact .inl (Nat.le_of_eq hsame)
      · exact .inr (Nat.le_of_eq hsame.symm)
      · exact .inr (Nat.le_of_lt (hbehind.1 other hfound))
    | inr hmember =>
      have hspec :=
        ih hlater.2 (fun other hfound => hwithin other (List.mem_cons_of_mem _ hfound)) hmember
      refine ⟨List.mem_cons_of_mem _ hspec.1, hspec.2.1, ?_⟩
      intro other hfound
      rw [List.mem_cons] at hfound
      cases hfound with
      | inl hsame =>
        rw [hsame]
        exact .inl (Nat.le_of_lt (hlater.1 _ hspec.1))
      | inr hfound => exact hspec.2.2 other hfound

theorem blockBounds_nonempty {length : Nat} {starts : List Nat} (hsorted : starts.Pairwise (· < ·))
    (hwithin : ∀ start ∈ starts, start < length) :
    ∀ block ∈ blockBounds length starts, block.start ∈ starts ∧ block.start < block.stop := by
  fun_induction blockBounds length starts with
  | case1 => exact fun block hmember => (by cases hmember)
  | case2 start =>
    intro block hmember
    rw [List.mem_singleton] at hmember
    subst hmember
    exact ⟨List.mem_singleton_self _, hwithin start (List.mem_singleton_self _)⟩
  | case3 start next starts ih =>
    have hlater := List.pairwise_cons.mp hsorted
    intro block hmember
    rw [List.mem_cons] at hmember
    cases hmember with
    | inl hsame =>
      subst hsame
      exact ⟨List.mem_cons_self, hlater.1 next List.mem_cons_self⟩
    | inr hmember =>
      have hrest := ih hlater.2 (fun other hfound => hwithin other (List.mem_cons_of_mem _ hfound))
        block hmember
      exact ⟨List.mem_cons_of_mem _ hrest.1, hrest.2⟩

theorem blockBounds_stops {length : Nat} {starts : List Nat} (hsorted : starts.Pairwise (· < ·))
    (hwithin : ∀ start ∈ starts, start < max length 1) :
    (blockBounds length starts).Pairwise fun block later => block.stop < later.stop := by
  fun_induction blockBounds length starts with
  | case1 => exact .nil
  | case2 start => exact List.pairwise_singleton ..
  | case3 start next starts ih =>
    have hlater := List.pairwise_cons.mp hsorted
    have hrest := ih hlater.2 fun other hmember => hwithin other (List.mem_cons_of_mem _ hmember)
    refine List.pairwise_cons.mpr ⟨?_, hrest⟩
    intro block hmember
    -- Only a first start can stand at the end of an empty listing.
    have hfirst := hlater.1 next List.mem_cons_self
    have hbehind := List.pairwise_cons.mp hlater.2
    have hleast : ∀ other ∈ next :: starts, next ≤ other := by
      intro other hfound
      rw [List.mem_cons] at hfound
      cases hfound with
      | inl hsame => exact Nat.le_of_eq hsame.symm
      | inr hfound => exact Nat.le_of_lt (hbehind.1 other hfound)
    have hheld := blockBounds_nonempty hlater.2 (fun other hfound => (by
      have hsmall := hwithin other (List.mem_cons_of_mem _ hfound)
      have hlarge := hleast other hfound
      omega)) block hmember
    have hlarge := hleast _ hheld.1
    dsimp only
    omega

theorem blockStarts_sorted (listing : List Instruction) :
    (blockStarts listing).Pairwise (· < ·) := by
  unfold blockStarts
  exact List.Pairwise.filter _ List.pairwise_lt_range

theorem mem_blockStarts {listing : List Instruction} {index : Nat}
    (hinside : index < listing.length)
    (hstarts : (∃ instruction ∈ listing,
        (directTarget instruction.flow).bind (indexOf listing) = some index) ∨
      ∃ previous, listing[index - 1]? = some previous ∧ endsABlock previous.flow = true ∧
        0 < index) :
    index ∈ blockStarts listing := by
  unfold blockStarts
  simp only [List.mem_filter, List.mem_range, Bool.or_eq_true, beq_iff_eq, decide_eq_true_eq]
  refine ⟨by omega, ?_⟩
  cases hstarts with
  | inl htarget =>
    obtain ⟨instruction, hmember, htarget⟩ := htarget
    exact .inl (.inr (List.mem_filterMap.mpr ⟨instruction, hmember, htarget⟩))
  | inr hbehind =>
    obtain ⟨previous, hfound, hends, hpositive⟩ := hbehind
    refine .inr (List.mem_filterMap.mpr ⟨(previous, index - 1), ?_, ?_⟩)
    · exact List.mk_mem_zipIdx_iff_getElem?.mpr hfound
    · have hnext : index - 1 + 1 = index := by omega
      simp [hends, hnext, hinside]

section Blocks
variable {listing : List Instruction} {index position : Nat} {block : Block}
  (hheld : (graph listing).blocks[index]? = some block)
include hheld

theorem graph_block_spec : block.stop ≤ listing.length ∧
    ∀ start ∈ blockStarts listing, start ≤ block.start ∨ block.stop ≤ start := by
  have hwithin : ∀ start ∈ blockStarts listing, start ≤ listing.length := by
    intro start hmember
    have hbound := List.mem_range.mp (List.mem_filter.mp hmember).1
    omega
  unfold graph at hheld
  rw [List.getElem?_map, Option.map_eq_some_iff] at hheld
  obtain ⟨bounds, hfound, hsame⟩ := hheld
  have hspec := blockBounds_spec (blockStarts_sorted listing) hwithin (List.mem_of_getElem? hfound)
  subst hsame
  exact hspec.2

variable (hinside : block.start < position ∧ position < block.stop)
include hinside

theorem falls_inside {previous : Instruction} (hfound : listing[position - 1]? = some previous) :
    endsABlock previous.flow = false := by
  have hspec := graph_block_spec hheld
  apply Bool.eq_false_of_not_eq_true
  intro hends
  have hstart := @mem_blockStarts listing position (by omega)
    (.inr ⟨previous, hfound, hends, by omega⟩)
  have hapart := hspec.2 position hstart
  omega

theorem target_outside {last : Instruction} (hmember : last ∈ listing) {target place : Nat}
    (hflow : last.flow = .branch (some target)) (hfound : indexOf listing target = some place) :
    ¬(position ≤ place ∧ place < block.stop) := by
  intro hwithin
  have hspec := graph_block_spec hheld
  have hstart := @mem_blockStarts listing place (by omega)
    (.inl ⟨last, hmember, by simp [directTarget, hflow, hfound]⟩)
  have hapart := hspec.2 place hstart
  omega

end Blocks

theorem stops_injective {listing : List Instruction} {index other : Nat} {block block' : Block}
    (hheld : (graph listing).blocks[index]? = some block)
    (hheld' : (graph listing).blocks[other]? = some block') (hsame : block.stop = block'.stop) :
    index = other := by
  have hwithin : ∀ start ∈ blockStarts listing, start < max listing.length 1 :=
    fun start hmember => List.mem_range.mp (List.mem_filter.mp hmember).1
  have hapart := blockBounds_stops (blockStarts_sorted listing) hwithin
  unfold graph at hheld hheld'
  rw [List.getElem?_map, Option.map_eq_some_iff] at hheld hheld'
  obtain ⟨bounds, hfound, rfl⟩ := hheld
  obtain ⟨bounds', hfound', rfl⟩ := hheld'
  dsimp only at hsame
  obtain ⟨hleft, hfound⟩ := List.getElem?_eq_some_iff.mp hfound
  obtain ⟨hright, hfound'⟩ := List.getElem?_eq_some_iff.mp hfound'
  have hordered := List.pairwise_iff_getElem.mp hapart
  rcases Nat.lt_trichotomy index other with hless | hsame' | hmore
  · have hstrict := hordered index other hleft hright hless
    rw [hfound, hfound'] at hstrict
    omega
  · exact hsame'
  · have hstrict := hordered other index hright hleft hmore
    rw [hfound, hfound'] at hstrict
    omega

/-- A transfer of control inside the listing, by positions: to the instruction behind,
or to a direct target. -/
inductive Flows (listing : List Instruction) (position next : Nat) : Prop where
  | falls (instruction : Instruction) (hfound : listing[position]? = some instruction)
    (hfalls : instruction.flow.fallsThrough = true) (hbehind : next = position + 1)
    (hinside : next < listing.length)
  | direct (instruction : Instruction) (target : Nat)
    (hfound : listing[position]? = some instruction)
    (hdirect : directTarget instruction.flow = some target)
    (hplace : indexOf listing target = some next)

def Graph.Succeeds (graph : Graph) (index other : Nat) : Prop :=
  ∃ block, graph.blocks[index]? = some block ∧ other ∈ block.successors

/-- Reachability through blocks: on to the end of the block an instruction stands in, or
along successors to the block of the other. -/
def Graph.Reaches (graph : Graph) (position next : Nat) : Prop :=
  ∃ index other, graph.holding position = some index ∧ graph.holding next = some other ∧
    (index = other ∧ position ≤ next ∨ TransGen graph.Succeeds index other)

theorem flows_iff {listing : List Instruction} {position next : Nat} {instruction : Instruction}
    (hfound : listing[position]? = some instruction) :
    Flows listing position next ↔
      (instruction.flow.fallsThrough = true ∧ next = position + 1 ∧ next < listing.length) ∨
        ∃ target, directTarget instruction.flow = some target ∧
          indexOf listing target = some next := by
  constructor
  · intro hflows
    cases hflows with
    | falls instruction' hfound' hfalls hbehind hinside =>
      rw [hfound, Option.some.injEq] at hfound'
      subst hfound'
      exact .inl ⟨hfalls, hbehind, hinside⟩
    | direct instruction' target hfound' hdirect hplace =>
      rw [hfound, Option.some.injEq] at hfound'
      subst hfound'
      exact .inr ⟨target, hdirect, hplace⟩
  · intro heither
    cases heither with
    | inl hfalls => exact .falls instruction hfound hfalls.1 hfalls.2.1 hfalls.2.2
    | inr hdirect =>
      obtain ⟨target, hdirect, hplace⟩ := hdirect
      exact .direct instruction target hfound hdirect hplace

theorem tiles_blockBounds {length first : Nat} {starts : List Nat}
    (hsorted : (first :: starts).Pairwise (· < ·))
    (hwithin : ∀ start ∈ first :: starts, start < length) :
    Tiling.Tiles Block.start Block.stop first length (blockBounds length (first :: starts)) := by
  induction starts generalizing first with
  | nil => exact ⟨rfl, hwithin first List.mem_cons_self, rfl⟩
  | cons next starts ih =>
    have hlater := List.pairwise_cons.mp hsorted
    refine ⟨rfl, hlater.1 next List.mem_cons_self, ?_⟩
    exact ih hlater.2 fun start hmember => hwithin start (List.mem_cons_of_mem _ hmember)

theorem blockStarts_cons (listing : List Instruction) :
    ∃ starts, blockStarts listing = 0 :: starts := by
  have hpositive : max listing.length 1 = (max listing.length 1 - 1) + 1 := by omega
  unfold blockStarts
  rw [hpositive, List.range_succ_eq_map, List.filter_cons_of_pos (by simp)]
  exact ⟨_, rfl⟩

theorem indexOf_lt {listing : List Instruction} {target place : Nat}
    (hfound : indexOf listing target = some place) : place < listing.length := by
  obtain ⟨last, _, rfl⟩ := Option.map_eq_some_iff.mp hfound
  exact last.isLt

section Faithful
variable {listing : List Instruction} (hnonempty : listing ≠ [])
include hnonempty

theorem tiles_bounds :
    Tiling.Tiles Block.start Block.stop 0 listing.length
      (blockBounds listing.length (blockStarts listing)) := by
  obtain ⟨starts, hfirst⟩ := blockStarts_cons listing
  have hsorted := blockStarts_sorted listing
  have hwithin : ∀ start ∈ blockStarts listing, start < listing.length := by
    intro start hmember
    have hbound := List.mem_range.mp (List.mem_filter.mp hmember).1
    have hpositive := List.length_pos_iff.mpr hnonempty
    omega
  rw [hfirst] at hsorted hwithin ⊢
  exact tiles_blockBounds hsorted hwithin

theorem tiles_graph :
    Tiling.Tiles Block.start Block.stop 0 listing.length (graph listing).blocks :=
  (tiles_bounds hnonempty).map _ (fun _ => rfl) (fun _ => rfl)

theorem holding_iff (position index : Nat) :
    (graph listing).holding position = some index ↔
      ∃ block, (graph listing).blocks[index]? = some block ∧ block.start ≤ position ∧
        position < block.stop := by
  have hheld := Tiling.getElem?_holders (tiles_bounds hnonempty) (Nat.zero_le position) 0
    index
  change (Tiling.holders Block.start Block.stop 0
    (blockBounds listing.length (blockStarts listing)))[position]? = some index ↔ _
  rw [Nat.sub_zero] at hheld
  rw [hheld]
  unfold graph
  simp only [List.getElem?_map, Option.map_eq_some_iff, Nat.zero_add]
  constructor
  · intro ⟨offset, bounds, hsame, hfound, hinside⟩
    rw [hsame]
    exact ⟨_, ⟨bounds, hfound, rfl⟩, hinside⟩
  · intro ⟨block, ⟨bounds, hfound, hsame⟩, hinside⟩
    subst hsame
    exact ⟨index, bounds, rfl, hfound, hinside⟩

theorem holding_isSome {position : Nat} (hinside : position < listing.length) :
    ∃ index, (graph listing).holding position = some index := by
  have hlength := Tiling.length_holders (tiles_bounds hnonempty) 0
  have hbound : position < (Tiling.holders Block.start Block.stop 0
      (blockBounds listing.length (blockStarts listing))).length := by omega
  exact ⟨_, List.getElem?_eq_getElem hbound⟩

theorem target_starts {instruction : Instruction} (hmember : instruction ∈ listing)
    {target place : Nat} (hdirect : directTarget instruction.flow = some target)
    (hfound : indexOf listing target = some place) :
    ∃ (index : Nat) (block : Block), (graph listing).blocks[index]? = some block ∧
      block.start = place := by
  have hinside := indexOf_lt hfound
  have hstart : place ∈ blockStarts listing :=
    mem_blockStarts hinside (.inl ⟨instruction, hmember, by rw [hdirect]; exact hfound⟩)
  obtain ⟨index, hholds⟩ := holding_isSome hnonempty hinside
  obtain ⟨block, hheld, hwithin⟩ := (holding_iff hnonempty place index).mp hholds
  have hapart := (graph_block_spec hheld).2 place hstart
  exact ⟨index, block, hheld, by omega⟩

variable {index : Nat} {block : Block} (hheld : (graph listing).blocks[index]? = some block)
include hheld

theorem block_positive : block.start < block.stop :=
  (tiles_graph hnonempty).nonempty (List.mem_of_getElem? hheld)

theorem block_stop_le : block.stop ≤ listing.length :=
  ((tiles_graph hnonempty).within (List.mem_of_getElem? hheld)).2

theorem holding_start : (graph listing).holding block.start = some index :=
  (holding_iff hnonempty block.start index).mpr
    ⟨block, hheld, Nat.le_refl _, block_positive hnonempty hheld⟩

theorem index_of_start {other : Nat} {block' : Block}
    (hheld' : (graph listing).blocks[other]? = some block') (hsame : block'.start = block.start) :
    other = index := by
  have hfound := holding_start hnonempty hheld'
  rw [hsame, holding_start hnonempty hheld] at hfound
  exact (Option.some.inj hfound).symm

theorem block_behind (hinside : block.stop < listing.length) :
    ∃ next, (graph listing).blocks[index + 1]? = some next ∧ next.start = block.stop := by
  cases (tiles_graph hnonempty).adjacent hheld with
  | inl hnext =>
    obtain ⟨block', hfound, hsame⟩ := Option.map_eq_some_iff.mp hnext.1
    exact ⟨block', hfound, hsame⟩
  | inr hlast => omega

theorem flows_inside {position next : Nat} (hfromStart : block.start ≤ position)
    (hinside : position + 1 < block.stop) :
    Flows listing position next ↔ next = position + 1 := by
  have hstopLe := block_stop_le hnonempty hheld
  have hstands : position < listing.length := by omega
  have hfound : listing[position]? = some listing[position] := List.getElem?_eq_getElem hstands
  have hordinary :=
    @falls_inside listing index (position + 1) block hheld ⟨by omega, hinside⟩ _ hfound
  constructor
  · intro hflows
    cases hflows with
    | falls _ _ _ hbehind _ => exact hbehind
    | direct instruction target hfound' hdirect _ =>
      rw [hfound, Option.some.injEq] at hfound'
      subst hfound'
      generalize listing[position].flow = flow at hordinary hdirect
      cases flow <;> simp [endsABlock, directTarget] at hordinary hdirect
  · intro hbehind
    refine .falls _ hfound ?_ hbehind (by omega)
    generalize listing[position].flow = flow at hordinary
    cases flow <;> simp [endsABlock, Flow.fallsThrough] at hordinary ⊢

theorem starts_of_flows {next : Nat} (hflows : Flows listing (block.stop - 1) next) :
    ∃ (other : Nat) (block' : Block), (graph listing).blocks[other]? = some block' ∧
      block'.start = next := by
  have hpositive := block_positive hnonempty hheld
  cases hflows with
  | falls _ _ _ hbehind hinside =>
    obtain ⟨block', hfound, hsame⟩ := block_behind hnonempty hheld (by omega)
    exact ⟨_, block', hfound, by omega⟩
  | direct instruction target hfound hdirect hplace =>
    exact target_starts hnonempty (List.mem_of_getElem? hfound) hdirect hplace

omit hheld in
theorem findIdx_start {place other : Nat} :
    (blockBounds listing.length (blockStarts listing)).findIdx?
        (fun block => block.start == place) = some other ↔
      ∃ block', (graph listing).blocks[other]? = some block' ∧ block'.start = place := by
  have hmapped : (blockBounds listing.length (blockStarts listing)).findIdx?
      (fun block => block.start == place) =
      (graph listing).blocks.findIdx? fun block => block.start == place := by
    unfold graph
    rw [List.findIdx?_map]
    rfl
  rw [hmapped, List.findIdx?_eq_some_iff_getElem]
  constructor
  · intro ⟨hbound, hsame, _⟩
    exact ⟨_, List.getElem?_eq_getElem hbound, by simpa using hsame⟩
  · intro ⟨block', hfound, hsame⟩
    obtain ⟨hbound, hfound⟩ := List.getElem?_eq_some_iff.mp hfound
    refine ⟨hbound, by simp [hfound, hsame], ?_⟩
    intro earlier hless
    rw [Bool.not_eq_true, beq_eq_false_iff_ne]
    intro hstart
    have hstands : earlier < (graph listing).blocks.length := by omega
    have hequal := index_of_start hnonempty (List.getElem?_eq_some_iff.mpr ⟨hbound, hfound⟩)
      (List.getElem?_eq_getElem hstands) (hstart.trans hsame.symm)
    omega

theorem mem_behind {other : Nat} :
    other ∈ (if block.stop < listing.length then
        ((graph listing).byInstruction[block.stop]?).toList else []) ↔
      block.stop < listing.length ∧
        ∃ block', (graph listing).blocks[other]? = some block' ∧ block'.start = block.stop := by
  split
  · rename_i hinside
    obtain ⟨next, hfound, hsame⟩ := block_behind hnonempty hheld hinside
    have hholds := holding_start hnonempty hfound
    rw [hsame] at hholds
    rw [show (graph listing).byInstruction[block.stop]? = some (index + 1) from hholds,
      Option.toList_some, List.mem_singleton]
    constructor
    · intro hequal
      rw [hequal]
      exact ⟨hinside, next, hfound, hsame⟩
    · intro ⟨_, block', hfound', hsame'⟩
      exact index_of_start hnonempty hfound hfound' (hsame'.trans hsame.symm)
  · rename_i houtside
    constructor
    · intro hmember
      cases hmember
    · intro ⟨hinside, _⟩
      exact absurd hinside houtside

omit hheld in
theorem mem_reach {destination : Option Nat} {other : Nat} :
    other ∈ ((destination.bind (indexOf listing)).bind fun place =>
        (blockBounds listing.length (blockStarts listing)).findIdx?
          fun block => block.start == place).toList ↔
      ∃ block', (graph listing).blocks[other]? = some block' ∧
        ∃ target, destination = some target ∧ indexOf listing target = some block'.start := by
  rw [Option.mem_toList, Option.bind_eq_some_iff]
  constructor
  · intro ⟨place, hfound, hstart⟩
    obtain ⟨target, hsame, hfound⟩ := Option.bind_eq_some_iff.mp hfound
    obtain ⟨block', hheld', hsame'⟩ := (findIdx_start hnonempty).mp hstart
    exact ⟨block', hheld', target, hsame, by rw [hsame']; exact hfound⟩
  · intro ⟨block', hheld', target, hsame, hfound⟩
    refine ⟨block'.start, ?_, (findIdx_start hnonempty).mpr ⟨block', hheld', rfl⟩⟩
    rw [hsame]
    exact hfound

theorem mem_successors_iff {other : Nat} :
    other ∈ block.successors ↔
      ∃ block', (graph listing).blocks[other]? = some block' ∧
        Flows listing (block.stop - 1) block'.start := by
  have hpositive := block_positive hnonempty hheld
  have hstopLe := block_stop_le hnonempty hheld
  have hstands : block.stop - 1 < listing.length := by omega
  have hlast : listing[block.stop - 1]? = some listing[block.stop - 1] :=
    List.getElem?_eq_getElem hstands
  have hsuccessors : block.successors = successorsOf listing
      (blockBounds listing.length (blockStarts listing)) (graph listing).byInstruction block := by
    unfold graph at hheld ⊢
    rw [List.getElem?_map, Option.map_eq_some_iff] at hheld
    obtain ⟨bounds, _, hsame⟩ := hheld
    rw [← hsame]
    rfl
  rw [hsuccessors, successorsOf, if_neg (by omega), hlast]
  simp only [flows_iff hlast, mem_sortedSet]
  have hnext : block.stop - 1 + 1 = block.stop := by omega
  have hbehind := @mem_behind listing hnonempty index block hheld other
  generalize listing[block.stop - 1].flow = flow
  cases flow with
  | branch destination =>
    rw [List.mem_append, mem_reach hnonempty, hbehind, hnext]
    simp only [Flow.fallsThrough, directTarget, true_and]
    constructor
    · intro heither
      cases heither with
      | inl hreached =>
        obtain ⟨block', hheld', htarget⟩ := hreached
        exact ⟨block', hheld', .inr htarget⟩
      | inr hfalls =>
        obtain ⟨hinside, block', hheld', hsame⟩ := hfalls
        exact ⟨block', hheld', .inl ⟨hsame, hsame ▸ hinside⟩⟩
    · intro ⟨block', hheld', heither⟩
      cases heither with
      | inl hfalls => exact .inr ⟨hfalls.1 ▸ hfalls.2, block', hheld', hfalls.1⟩
      | inr htarget => exact .inl ⟨block', hheld', htarget⟩
  | jmp destination =>
    rw [mem_reach hnonempty]
    simp only [Flow.fallsThrough, directTarget, Bool.false_eq_true, false_and, false_or]
  | call destination =>
    rw [hbehind, hnext]
    simp only [Flow.fallsThrough, directTarget, true_and, reduceCtorEq, false_and, exists_false,
      or_false]
    constructor
    · intro ⟨hinside, block', hheld', hsame⟩
      exact ⟨block', hheld', hsame, hsame ▸ hinside⟩
    · intro ⟨block', hheld', hsame, hinside⟩
      exact ⟨hsame ▸ hinside, block', hheld', hsame⟩
  | fallthrough =>
    rw [hbehind, hnext]
    simp only [Flow.fallsThrough, directTarget, true_and, reduceCtorEq, false_and, exists_false,
      or_false]
    constructor
    · intro ⟨hinside, block', hheld', hsame⟩
      exact ⟨block', hheld', hsame, hsame ▸ hinside⟩
    · intro ⟨block', hheld', hsame, hinside⟩
      exact ⟨hsame ▸ hinside, block', hheld', hsame⟩
  | ret => simp [Flow.fallsThrough, directTarget]
  | trap => simp [Flow.fallsThrough, directTarget]
  | unreadable => simp [Flow.fallsThrough, directTarget]
  | unknown => simp [Flow.fallsThrough, directTarget]

theorem flows_within {position next : Nat} (hfromStart : block.start ≤ position)
    (hordered : position ≤ next) (hinside : next < block.stop) :
    ReflTransGen (Flows listing) position next := by
  induction next, hordered using Nat.le_induction with
  | base => exact .refl
  | succ next hordered ih =>
    apply (ih (by omega)).tail
    exact (flows_inside hnonempty hheld (by omega) hinside).mpr rfl

omit hheld in
theorem flows_to_start {other position : Nat}
    (hreached : TransGen (graph listing).Succeeds index other)
    (hholds : (graph listing).holding position = some index) :
    ∃ block', (graph listing).blocks[other]? = some block' ∧
      ReflTransGen (Flows listing) position block'.start := by
  obtain ⟨block, hheld, hfromStart, hinside⟩ := (holding_iff hnonempty position index).mp hholds
  have hlast : ∀ {index : Nat} {block : Block} {position : Nat},
      (graph listing).blocks[index]? = some block → block.start ≤ position →
      position < block.stop → ReflTransGen (Flows listing) position (block.stop - 1) := by
    intro index block position hheld hfromStart hinside
    exact flows_within hnonempty hheld hfromStart (by omega) (by omega)
  induction hreached with
  | single hsucceeds =>
    obtain ⟨block', hheld', hmember⟩ := hsucceeds
    rw [hheld, Option.some.injEq] at hheld'
    subst hheld'
    obtain ⟨next, hfound, hflows⟩ := (mem_successors_iff hnonempty hheld).mp hmember
    exact ⟨next, hfound, (hlast hheld hfromStart hinside).tail hflows⟩
  | tail _ hsucceeds ih =>
    obtain ⟨block', hheld', hreached⟩ := ih
    obtain ⟨block'', hheld'', hmember⟩ := hsucceeds
    rw [hheld', Option.some.injEq] at hheld''
    subst hheld''
    obtain ⟨next, hfound, hflows⟩ := (mem_successors_iff hnonempty hheld').mp hmember
    have hthrough := hlast hheld' (Nat.le_refl _) (block_positive hnonempty hheld')
    exact ⟨next, hfound, (hreached.trans hthrough).tail hflows⟩

omit hheld in
theorem flows_of_reaches {position next : Nat} (hreaches : (graph listing).Reaches position next) :
    ReflTransGen (Flows listing) position next := by
  obtain ⟨index, other, hholds, hholds', heither⟩ := hreaches
  obtain ⟨block', hheld', hfromStart', hinside'⟩ := (holding_iff hnonempty next other).mp hholds'
  cases heither with
  | inl hsame =>
    obtain ⟨block, hheld, hfromStart, hinside⟩ := (holding_iff hnonempty position index).mp hholds
    rw [hsame.1, hheld', Option.some.injEq] at hheld
    subst hheld
    exact flows_within hnonempty hheld' hfromStart hsame.2 hinside'
  | inr hreached =>
    obtain ⟨block, hheld, htoStart⟩ := flows_to_start hnonempty hreached hholds
    rw [hheld', Option.some.injEq] at hheld
    subst hheld
    exact htoStart.trans (flows_within hnonempty hheld' (Nat.le_refl _) hfromStart' hinside')

omit hheld in
theorem reaches_of_flows {position next : Nat} (hstands : position < listing.length)
    (hflows : ReflTransGen (Flows listing) position next) :
    (graph listing).Reaches position next := by
  induction hflows with
  | refl =>
    obtain ⟨index, hholds⟩ := holding_isSome hnonempty hstands
    exact ⟨index, index, hholds, hholds, .inl ⟨rfl, Nat.le_refl _⟩⟩
  | @tail middle next _ hstep ih =>
    obtain ⟨index, other, hholds, hholds', heither⟩ := ih
    obtain ⟨block, hheld, hfromStart, hinside⟩ := (holding_iff hnonempty middle other).mp hholds'
    by_cases hends : middle + 1 < block.stop
    · have hbehind := (flows_inside hnonempty hheld hfromStart hends).mp hstep
      refine ⟨index, other, hholds, ?_, ?_⟩
      · exact (holding_iff hnonempty next other).mpr ⟨block, hheld, by omega, by omega⟩
      · exact heither.imp_left fun hsame => ⟨hsame.1, by omega⟩
    · have hlast : middle = block.stop - 1 := by omega
      rw [hlast] at hstep
      obtain ⟨later, block', hheld', hstart⟩ := starts_of_flows hnonempty hheld hstep
      have hsucceeds : (graph listing).Succeeds other later :=
        ⟨block, hheld, (mem_successors_iff hnonempty hheld).mpr
          ⟨block', hheld', by rw [hstart]; exact hstep⟩⟩
      have hholds'' := holding_start hnonempty hheld'
      rw [hstart] at hholds''
      refine ⟨index, later, hholds, hholds'', .inr ?_⟩
      cases heither with
      | inl hsame =>
        rw [hsame.1]
        exact .single hsucceeds
      | inr hreached => exact hreached.tail hsucceeds

end Faithful

structure Graph.Faithful (listing : List Instruction) (graph : Graph) : Prop where
  first : graph.blocks[0]?.map (·.start) = some 0
  consecutive : ∀ (index : Nat) (block : Block), graph.blocks[index]? = some block →
    block.start < block.stop ∧
    (graph.blocks[index + 1]?.map (·.start) = some block.stop ∧ block.stop < listing.length ∨
      graph.blocks[index + 1]? = none ∧ block.stop = listing.length)
  holding : ∀ position index, graph.holding position = some index ↔
    ∃ block : Block, graph.blocks[index]? = some block ∧ block.start ≤ position ∧
      position < block.stop
  held : ∀ position, position < listing.length → (graph.holding position).isSome = true
  interior : ∀ (index : Nat) (block : Block) (position : Nat), graph.blocks[index]? = some block →
    block.start ≤ position → position + 1 < block.stop →
    ∀ next, Flows listing position next ↔ next = position + 1
  targets : ∀ instruction ∈ listing, ∀ target place,
    directTarget instruction.flow = some target → indexOf listing target = some place →
    ∃ (index : Nat) (block : Block), graph.blocks[index]? = some block ∧ block.start = place
  reaches : ∀ position next, position < listing.length →
    (ReflTransGen (Flows listing) position next ↔ graph.Reaches position next)

theorem graph_faithful (listing : List Instruction) (hnonempty : listing ≠ []) :
    (graph listing).Faithful listing where
  first := (tiles_graph hnonempty).head (List.length_pos_iff.mpr hnonempty)
  consecutive := fun _ _ hheld =>
    ⟨block_positive hnonempty hheld, (tiles_graph hnonempty).adjacent hheld⟩
  holding := holding_iff hnonempty
  held := fun _ hinside => Option.isSome_iff_exists.mpr (holding_isSome hnonempty hinside)
  interior := fun _ _ _ hheld hfromStart hinside _ =>
    flows_inside hnonempty hheld hfromStart hinside
  targets := fun _ hmember _ _ hdirect hfound => target_starts hnonempty hmember hdirect hfound
  reaches := fun _ _ hstands => ⟨reaches_of_flows hnonempty hstands, flows_of_reaches hnonempty⟩

theorem graph_faithful_branch :
    (graph [{ address := 0x1000, flow := .branch (some 0x1004) },
      { address := 0x1002, flow := .ret }, { address := 0x1004, flow := .ret }]).Faithful
        [{ address := 0x1000, flow := .branch (some 0x1004) },
          { address := 0x1002, flow := .ret }, { address := 0x1004, flow := .ret }] :=
  graph_faithful _ (List.cons_ne_nil _ _)

end WindbgMcp.Ioctl
