import Mathlib.Data.List.Basic

/-! Consecutive non-empty stretches of the natural numbers, each stretch beginning
where the one before it ends, and the table that names the stretch of every number. -/
namespace WindbgMcp.Library.Tiling

variable {α : Type} (start stop : α → Nat)

/-- The stretches tile the numbers from `first` up to `past`. -/
def Tiles : Nat → Nat → List α → Prop
  | first, past, [] => first = past
  | first, past, tile :: tiles =>
    start tile = first ∧ start tile < stop tile ∧ Tiles (stop tile) past tiles

/-- For each number in turn, which stretch it lies in, counted on from `index`. -/
def holders (index : Nat) (tiles : List α) : List Nat :=
  ((tiles.zipIdx index).map fun entry =>
    List.replicate (stop entry.1 - start entry.1) entry.2).flatten

variable {start stop} {first past : Nat} {tiles : List α} {tile next : α} {index position : Nat}

theorem Tiles.nonempty (h : Tiles start stop first past tiles) (hmem : tile ∈ tiles) :
    start tile < stop tile := by
  induction tiles generalizing first with
  | nil => cases hmem
  | cons head tiles ih =>
    cases hmem with
    | head => exact h.2.1
    | tail _ hmem => exact ih h.2.2 hmem

theorem Tiles.le (h : Tiles start stop first past tiles) : first ≤ past := by
  induction tiles generalizing first with
  | nil => exact Nat.le_of_eq h
  | cons head tiles ih =>
    have hlater := ih h.2.2
    have hhead := h.1
    have hpositive := h.2.1
    omega

theorem Tiles.within (h : Tiles start stop first past tiles) (hmem : tile ∈ tiles) :
    first ≤ start tile ∧ stop tile ≤ past := by
  induction tiles generalizing first with
  | nil => cases hmem
  | cons head tiles ih =>
    have hhead := h.1
    have hpositive := h.2.1
    cases hmem with
    | head =>
      have hlater := h.2.2.le
      omega
    | tail _ hmem =>
      have hlater := ih h.2.2 hmem
      omega

theorem Tiles.head (h : Tiles start stop first past tiles) (hlt : first < past) :
    tiles[0]?.map start = some first := by
  cases tiles with
  | nil =>
    rw [show first = past from h] at hlt
    exact absurd hlt (Nat.lt_irrefl past)
  | cons head tiles => exact congrArg some h.1

theorem Tiles.adjacent (h : Tiles start stop first past tiles)
    (htile : tiles[index]? = some tile) :
    (tiles[index + 1]?.map start = some (stop tile) ∧ stop tile < past) ∨
      (tiles[index + 1]? = none ∧ stop tile = past) := by
  induction tiles generalizing first index with
  | nil => cases htile
  | cons head tiles ih =>
    cases index with
    | succ index =>
      rw [List.getElem?_cons_succ] at htile ⊢
      exact ih h.2.2 htile
    | zero =>
      rw [List.getElem?_cons_zero, Option.some.injEq] at htile
      subst htile
      cases tiles with
      | nil => exact Or.inr ⟨rfl, h.2.2⟩
      | cons second tiles =>
        have hlater := h.2.2
        have hwithin := hlater.within List.mem_cons_self
        have hpositive := hlater.2.1
        have hstart := hlater.1
        refine Or.inl ⟨congrArg some hstart, ?_⟩
        omega

theorem length_holders (h : Tiles start stop first past tiles) (index : Nat) :
    first + (holders start stop index tiles).length = past := by
  induction tiles generalizing first index with
  | nil => exact h
  | cons head tiles ih =>
    have hlater := ih h.2.2 (index + 1)
    have hhead := h.1
    have hpositive := h.2.1
    simp only [holders, List.zipIdx_cons, List.map_cons, List.flatten_cons, List.length_append,
      List.length_replicate] at hlater ⊢
    omega

theorem getElem?_holders (h : Tiles start stop first past tiles) (hfirst : first ≤ position)
    (index holder : Nat) :
    (holders start stop index tiles)[position - first]? = some holder ↔
      ∃ offset tile, holder = index + offset ∧ tiles[offset]? = some tile ∧
        start tile ≤ position ∧ position < stop tile := by
  induction tiles generalizing first index with
  | nil =>
    constructor
    · intro hnone
      cases hnone
    · intro ⟨offset, tile, _, htile, _⟩
      cases htile
  | cons head tiles ih =>
    have hhead := h.1
    have hpositive := h.2.1
    have hsplit : holders start stop index (head :: tiles) =
        List.replicate (stop head - start head) index ++
          holders start stop (index + 1) tiles := rfl
    rw [hsplit]
    by_cases hinside : position < stop head
    · rw [List.getElem?_append_left (by rw [List.length_replicate]; omega),
        List.getElem?_replicate, if_pos (by omega), Option.some.injEq]
      constructor
      · intro hindex
        exact ⟨0, head, hindex.symm, rfl, by omega, hinside⟩
      · intro ⟨offset, tile, hholder, htile, hstart, _⟩
        cases offset with
        | zero => exact hholder.symm
        | succ offset =>
          have hmem := List.mem_of_getElem? (List.getElem?_cons_succ ▸ htile)
          have hbehind := (h.2.2.within hmem).1
          omega
    · rw [List.getElem?_append_right (by rw [List.length_replicate]; omega),
        List.length_replicate]
      have hrest : position - first - (stop head - start head) = position - stop head := by omega
      rw [hrest, ih h.2.2 (by omega)]
      constructor
      · intro ⟨offset, tile, hholder, htile, hat⟩
        exact ⟨offset + 1, tile, by omega, htile, hat⟩
      · intro ⟨offset, tile, hholder, htile, hat⟩
        cases offset with
        | zero =>
          rw [List.getElem?_cons_zero, Option.some.injEq] at htile
          subst htile
          exact absurd hat.2 hinside
        | succ offset => exact ⟨offset, tile, by omega, htile, hat⟩

theorem Tiles.map {β : Type} {start' stop' : β → Nat} (f : α → β)
    (hstart : ∀ tile, start' (f tile) = start tile) (hstop : ∀ tile, stop' (f tile) = stop tile)
    (h : Tiles start stop first past tiles) : Tiles start' stop' first past (tiles.map f) := by
  induction tiles generalizing first with
  | nil => exact h
  | cons head tiles ih =>
    refine ⟨?_, ?_, ?_⟩
    · rw [hstart]
      exact h.1
    · rw [hstart, hstop]
      exact h.2.1
    · rw [hstop]
      exact ih h.2.2

end WindbgMcp.Library.Tiling
