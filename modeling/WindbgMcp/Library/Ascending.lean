import Mathlib.Order.Lattice
import Mathlib.Data.List.Basic

/-! The first members of strictly ascending lists. -/
namespace WindbgMcp.Library.Ascending

variable {α : Type} [LinearOrder α]

def below (xs : List α) (value : α) : Nat := (xs.filter (· < value)).length

@[simp] theorem below_nil (value : α) : below [] value = 0 := rfl

theorem below_head {x : α} {xs : List α} (h : (x :: xs).Pairwise (· < ·)) :
    below (x :: xs) x = 0 := by
  unfold below
  rw [List.length_eq_zero_iff, List.filter_eq_nil_iff]
  intro y hy
  simp only [decide_eq_true_eq, not_lt]
  cases hy with
  | head => exact le_refl x
  | tail _ hy => exact le_of_lt ((List.pairwise_cons.mp h).1 y hy)

theorem below_cons_of_lt {x value : α} (xs : List α) (h : x < value) :
    below (x :: xs) value = below xs value + 1 := by
  unfold below
  rw [List.filter_cons_of_pos (by simpa using h), List.length_cons]

theorem below_of_forall_le {xs : List α} {value : α} (h : ∀ x ∈ xs, value ≤ x) :
    below xs value = 0 := by
  unfold below
  rw [List.length_eq_zero_iff, List.filter_eq_nil_iff]
  intro x hx
  simpa using h x hx

/-- Two ascending lists have the same first `count` members if and only if those of the
first all stand in the second, and whatever the second has besides stands behind
`count` members of the first. -/
theorem take_eq_take_iff {xs ys : List α} (hx : xs.Pairwise (· < ·))
    (hy : ys.Pairwise (· < ·)) (count : Nat) :
    ys.take count = xs.take count ↔
      (∀ x ∈ xs, below xs x < count → x ∈ ys) ∧
        ∀ y ∈ ys, y ∉ xs → count ≤ below xs y := by
  induction count generalizing xs ys with
  | zero => simp
  | succ count ih =>
    cases xs with
    | nil =>
      cases ys with
      | nil => simp
      | cons y ys =>
        simp only [List.take_succ_cons, List.take_nil, reduceCtorEq, List.not_mem_nil,
          false_imp_iff, implies_true, below_nil, true_and, false_iff]
        intro h
        exact absurd (h y List.mem_cons_self not_false) (by omega)
    | cons x xs =>
      have hrank := below_head hx
      obtain ⟨hxmin, hxs⟩ := List.pairwise_cons.mp hx
      cases ys with
      | nil =>
        simp only [List.take_nil, List.take_succ_cons, List.not_mem_nil, imp_false,
          false_imp_iff, implies_true, and_true, reduceCtorEq, false_iff]
        intro h
        have hhead := h x List.mem_cons_self
        omega
      | cons y ys =>
        obtain ⟨hymin, hys⟩ := List.pairwise_cons.mp hy
        rw [List.take_succ_cons, List.take_succ_cons, List.cons.injEq]
        by_cases hhead : y = x
        · subst hhead
          rw [ih hxs hys, and_iff_right rfl]
          -- Every other member of either list lies above the common head.
          have hranks : ∀ z, y < z → below (y :: xs) z = below xs z + 1 :=
            fun z hz => below_cons_of_lt xs hz
          constructor
          · intro h
            constructor
            · intro z hz hlow
              cases hz with
              | head => exact List.mem_cons_self
              | tail _ hz =>
                rw [hranks z (hxmin z hz)] at hlow
                exact List.mem_cons_of_mem y (h.1 z hz (by omega))
            · intro z hz hout
              cases hz with
              | head => exact absurd List.mem_cons_self hout
              | tail _ hz =>
                have hlate := h.2 z hz fun h => hout (List.mem_cons_of_mem y h)
                rw [hranks z (hymin z hz)]
                omega
          · intro h
            constructor
            · intro z hz hlow
              have hup := hxmin z hz
              have hin := h.1 z (List.mem_cons_of_mem y hz) (by rw [hranks z hup]; omega)
              exact (List.mem_cons.mp hin).resolve_left (ne_of_gt hup)
            · intro z hz hout
              have hup := hymin z hz
              have hlate := h.2 z (List.mem_cons_of_mem y hz)
                fun h => hout ((List.mem_cons.mp h).resolve_left (ne_of_gt hup))
              rw [hranks z hup] at hlate
              omega
        · -- The lower of two different heads stands in neither side's other list.
          apply iff_of_false (fun h => hhead h.1)
          intro h
          rcases lt_or_gt_of_ne hhead with hlow | hlow
          · have hout : y ∉ x :: xs := by
              intro h
              cases h with
              | head => exact hhead rfl
              | tail _ h => exact absurd (hxmin y h) (not_lt_of_gt hlow)
            have hlate := h.2 y List.mem_cons_self hout
            have hzero : below (x :: xs) y = 0 := by
              apply below_of_forall_le
              intro z hz
              cases hz with
              | head => exact le_of_lt hlow
              | tail _ hz => exact le_of_lt (lt_trans hlow (hxmin z hz))
            omega
          · have hin := h.1 x List.mem_cons_self (by omega)
            cases hin with
            | head => exact hhead rfl
            | tail _ hin => exact absurd (hymin x hin) (not_lt_of_gt hlow)

omit [LinearOrder α] in
/-- What stands in front may be cut to a count before a list is appended and the whole
is cut to it. -/
theorem take_take_append (xs ys : List α) (count : Nat) :
    (xs.take count ++ ys).take count = (xs ++ ys).take count := by
  rw [List.take_append, List.take_append, List.take_take, Nat.min_self, List.length_take]
  congr 2
  omega

end WindbgMcp.Library.Ascending
