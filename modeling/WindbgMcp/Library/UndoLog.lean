import Mathlib.Data.List.Basic

/-! A memory edited in place, with a log of what stood in each range before it was
written, newest first.  A write may land on some of its cells only, and ranges may
overlap: what the log undoes to is what counts. -/
namespace WindbgMcp.Library.UndoLog

variable {β : Type}

/-- The memory after `cells` were written at `start`, of which those at `lands` arrived. -/
def put (start : Nat) (cells : List β) (lands : Nat → Bool) (memory : Nat → β) : Nat → β :=
  fun a =>
    if start ≤ a ∧ lands (a - start) = true then (cells[a - start]?).getD (memory a) else memory a

theorem put_outside {start : Nat} {cells : List β} {lands : Nat → Bool} {memory : Nat → β}
    {a : Nat} (h : ¬ (start ≤ a ∧ a < start + cells.length)) :
    put start cells lands memory a = memory a := by
  unfold put
  split
  · rename_i hinside
    rw [List.getElem?_eq_none (by omega), Option.getD_none]
  · rfl

structure Saved (β : Type) where
  start : Nat
  cells : List β

namespace Saved

variable (saved : Saved β)

def Covers (a : Nat) : Prop := saved.start ≤ a ∧ a < saved.start + saved.cells.length

def Holds (memory : Nat → β) : Prop :=
  ∀ a, saved.Covers a → saved.cells[a - saved.start]? = some (memory a)

def rewrite (memory : Nat → β) : Nat → β := put saved.start saved.cells (fun _ => true) memory

variable {saved} {memory other : Nat → β} {a : Nat}

theorem rewrite_outside (h : ¬ saved.Covers a) : saved.rewrite memory a = memory a :=
  put_outside h

theorem rewrite_inside {cell : β} (h : saved.Covers a)
    (hcell : saved.cells[a - saved.start]? = some cell) : saved.rewrite memory a = cell := by
  unfold rewrite put
  rw [if_pos ⟨h.1, rfl⟩, hcell, Option.getD_some]

theorem rewrite_congr (h : saved.Covers a) : saved.rewrite memory a = saved.rewrite other a := by
  have hlt : a - saved.start < saved.cells.length := by
    have hcovers := h
    unfold Covers at hcovers
    omega
  have hcell := List.getElem?_eq_getElem hlt
  rw [rewrite_inside h hcell, rewrite_inside h hcell]

theorem Holds.rewrite_eq (h : saved.Holds memory) : saved.rewrite memory = memory := by
  funext a
  by_cases hcovers : saved.Covers a
  · exact rewrite_inside hcovers (h a hcovers)
  · exact rewrite_outside hcovers

theorem holds_rewrite (saved : Saved β) (memory : Nat → β) :
    saved.Holds (saved.rewrite memory) := by
  intro a hcovers
  have hlt : a - saved.start < saved.cells.length := by
    have hrange := hcovers
    unfold Covers at hrange
    omega
  have hcell := List.getElem?_eq_getElem hlt
  rw [rewrite_inside hcovers hcell, hcell]

theorem cells_eq_of_holds {start : Nat} {cells others : List β}
    (hlength : cells.length = others.length) (h : (Saved.mk start cells).Holds memory)
    (hothers : (Saved.mk start others).Holds memory) : cells = others := by
  apply List.ext_getElem?
  intro i
  by_cases hi : i < cells.length
  · have hcell := h (start + i) ⟨Nat.le_add_right start i, by simp only; omega⟩
    have hother := hothers (start + i) ⟨Nat.le_add_right start i, by simp only; omega⟩
    simp only [Nat.add_sub_cancel_left] at hcell hother
    rw [hcell, hother]
  · rw [List.getElem?_eq_none (by omega), List.getElem?_eq_none (by omega)]

end Saved

def Outside (log : List (Saved β)) (a : Nat) : Prop := ∀ saved ∈ log, ¬ saved.Covers a

def undo : List (Saved β) → (Nat → β) → Nat → β
  | [], memory => memory
  | saved :: log, memory => undo log (saved.rewrite memory)

section
variable {saved : Saved β} {log : List (Saved β)} {memory other start : Nat → β}

theorem outside_cons {a : Nat} :
    Outside (saved :: log) a ↔ ¬ saved.Covers a ∧ Outside log a :=
  List.forall_mem_cons

theorem undo_cons : undo (saved :: log) memory = undo log (saved.rewrite memory) := rfl

theorem undo_outside {a : Nat} (h : Outside log a) : undo log memory a = memory a := by
  induction log generalizing memory with
  | nil => rfl
  | cons saved log ih =>
    obtain ⟨hfirst, hlater⟩ := outside_cons.mp h
    rw [undo_cons, ih hlater, Saved.rewrite_outside hfirst]

theorem undo_congr (h : ∀ a, Outside log a → memory a = other a) :
    undo log memory = undo log other := by
  induction log generalizing memory other with
  | nil =>
    funext a
    exact h a (List.forall_mem_nil _)
  | cons saved log ih =>
    apply ih
    intro a hlater
    by_cases hcovers : saved.Covers a
    · exact Saved.rewrite_congr hcovers
    · rw [Saved.rewrite_outside hcovers, Saved.rewrite_outside hcovers]
      exact h a (outside_cons.mpr ⟨hcovers, hlater⟩)

theorem undo_written (h : ∀ a, ¬ saved.Covers a → other a = memory a) :
    undo (saved :: log) other = undo (saved :: log) memory := by
  apply undo_congr
  intro a houtside
  exact h a (outside_cons.mp houtside).1

theorem undo_pop (h : saved.Holds memory) : undo (saved :: log) memory = undo log memory := by
  rw [undo_cons, h.rewrite_eq]

/-- A range whose cells, where the log saves nothing older, are those of `start`. -/
def Sound (start : Nat → β) (log : List (Saved β)) (saved : Saved β) : Prop :=
  ∀ a, saved.Covers a → Outside log a → saved.cells[a - saved.start]? = some (start a)

theorem Sound.cons (h : Sound start log saved) (newer : Saved β) :
    Sound start (newer :: log) saved :=
  fun a hcovers houtside => h a hcovers (outside_cons.mp houtside).2

theorem sound_of_holds (hundo : undo log memory = start) (h : saved.Holds memory) :
    Sound start log saved := by
  intro a hcovers houtside
  rw [h a hcovers, ← hundo, undo_outside houtside]

theorem undo_push (hundo : undo log memory = start) (hsound : Sound start log saved)
    (hother : ∀ a, ¬ saved.Covers a → other a = memory a) :
    undo (saved :: log) other = start := by
  rw [undo_written hother, undo_cons, ← hundo]
  apply undo_congr
  intro a houtside
  by_cases hcovers : saved.Covers a
  · rw [Saved.rewrite_inside hcovers (hsound a hcovers houtside), ← hundo, undo_outside houtside]
  · exact Saved.rewrite_outside hcovers

end

/-! ### Ranges saved before any of them is written -/

/-- Every range was saved from `start`, and the memory differs from it inside them only. -/
structure Snapshot (start : Nat → β) (log : List (Saved β)) (memory : Nat → β) : Prop where
  holds : ∀ saved ∈ log, saved.Holds start
  agrees : ∀ a, Outside log a → memory a = start a

section
variable {saved : Saved β} {log : List (Saved β)} {memory other start : Nat → β}

theorem snapshot_nil : Snapshot start [] memory ↔ memory = start := by
  constructor
  · intro h
    funext a
    exact h.agrees a (List.forall_mem_nil _)
  · rintro rfl
    exact ⟨List.forall_mem_nil _, fun _ _ => rfl⟩

theorem Snapshot.written (h : Snapshot start (saved :: log) memory)
    (hother : ∀ a, ¬ saved.Covers a → other a = memory a) :
    Snapshot start (saved :: log) other := by
  refine ⟨h.holds, ?_⟩
  intro a houtside
  rw [hother a (outside_cons.mp houtside).1, h.agrees a houtside]

theorem Snapshot.push (h : Snapshot start log memory) (hsaved : saved.Holds start) :
    Snapshot start (saved :: log) memory :=
  ⟨List.forall_mem_cons.mpr ⟨hsaved, h.holds⟩,
    fun a houtside => h.agrees a (outside_cons.mp houtside).2⟩

theorem Snapshot.pop (h : Snapshot start (saved :: log) memory) (hholds : saved.Holds memory) :
    Snapshot start log memory := by
  obtain ⟨hsaved, hlater⟩ := List.forall_mem_cons.mp h.holds
  refine ⟨hlater, ?_⟩
  intro a houtside
  by_cases hcovers : saved.Covers a
  · exact Option.some.inj ((hholds a hcovers).symm.trans (hsaved a hcovers))
  · exact h.agrees a (outside_cons.mpr ⟨hcovers, houtside⟩)

end

end WindbgMcp.Library.UndoLog
