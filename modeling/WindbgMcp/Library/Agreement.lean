import Mathlib.Data.Set.Finite.Lattice
import Mathlib.Order.Lattice
import Mathlib.Order.OrderIsoNat

/-! What several parties agree on, as a lattice: a value agreed on, and nothing above all of them.
Joining two parties keeps what both say. -/
namespace WindbgMcp.Library

inductive Agreed (α : Type*)
  | on (value : α)
  | nothing
  deriving DecidableEq

namespace Agreed
variable {α : Type*}

def ofOption : Option α → Agreed α
  | some value => .on value
  | none => .nothing

theorem ofOption_injective : Function.Injective (ofOption : Option α → Agreed α) := by
  intro a b h
  cases a <;> cases b <;> cases h <;> rfl

@[simp] theorem ofOption_inj {a b : Option α} : ofOption a = ofOption b ↔ a = b :=
  ofOption_injective.eq_iff

/-- Further up, less is agreed on. -/
instance : PartialOrder (Agreed α) where
  le a b := b = nothing ∨ a = b
  le_refl a := Or.inr rfl
  le_trans a b c hab hbc := by
    rcases hbc with hnothing | rfl
    · exact Or.inl hnothing
    · exact hab
  le_antisymm a b hab hba := by
    rcases hab with rfl | hsame
    · rcases hba with rfl | hsame
      · rfl
      · exact hsame.symm
    · exact hsame

theorem le_iff {a b : Agreed α} : a ≤ b ↔ b = nothing ∨ a = b := Iff.rfl

variable [DecidableEq α]

instance : SemilatticeSup (Agreed α) where
  sup a b := if a = b then a else nothing
  le_sup_left a b := by
    rw [le_iff]
    split
    · exact Or.inr rfl
    · exact Or.inl rfl
  le_sup_right a b := by
    rw [le_iff]
    split
    · next hsame => exact Or.inr hsame.symm
    · exact Or.inl rfl
  sup_le a b c hac hbc := by
    rw [le_iff] at hac hbc ⊢
    rcases hac with hnothing | rfl
    · exact Or.inl hnothing
    · rcases hbc with hnothing | rfl
      · exact Or.inl hnothing
      · exact Or.inr (if_pos rfl)

theorem ofOption_sup (a b : Option α) :
    ofOption a ⊔ ofOption b = ofOption (if a = b then a else none) := by
  change (if ofOption a = ofOption b then ofOption a else nothing) = _
  simp only [ofOption_inj]
  split <;> rfl

end Agreed

section Drops
variable {β : Type*} [PartialOrder β] [WellFoundedLT β]

theorem finite_drops {measure : ℕ → β} (h : Antitone measure) :
    {n | measure (n + 1) ≠ measure n}.Finite := by
  obtain ⟨last, hlast⟩ := WellFoundedGT.monotone_chain_condition (α := βᵒᵈ) ⟨measure, h.dual_right⟩
  apply (Set.finite_lt_nat last).subset
  intro n hmoves
  by_contra hbehind
  have hn : last ≤ n := Nat.not_lt.mp hbehind
  exact hmoves ((hlast (n + 1) (Nat.le_succ_of_le hn)).symm.trans (hlast n hn))

end Drops

end WindbgMcp.Library
