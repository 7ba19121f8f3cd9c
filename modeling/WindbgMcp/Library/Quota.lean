import Mathlib.Data.List.Basic

/-! A quota: of the items it is offered the first few are kept and the others counted,
and the offer that fills it is signalled. -/
namespace WindbgMcp.Library

structure Quota (α : Type) where
  kept : List α
  limit : Nat
  dropped : Nat
  full : Bool

namespace Quota
variable {α : Type} {limit : Nat} {items : List α} {quota : Quota α}

def offer (quota : Quota α) (item : α) : Quota α × Bool :=
  if quota.full then ({ quota with dropped := quota.dropped + 1 }, false)
  else
    let kept := quota.kept ++ [item]
    if quota.limit ≤ kept.length then ({ quota with kept := kept, full := true }, true)
    else ({ quota with kept := kept }, false)

/-- What a quota holds once it has been offered `items`. -/
structure Offered (limit : Nat) (items : List α) (quota : Quota α) : Prop where
  limit_eq : quota.limit = limit
  kept : quota.kept = items.take limit
  dropped : quota.dropped = items.length - limit
  full : quota.full = true ↔ limit ≤ items.length

theorem Offered.offer (offered : Offered limit items quota) (hpos : 0 < limit) (item : α) :
    Offered limit (items ++ [item]) (quota.offer item).1 ∧
      ((quota.offer item).2 = true ↔ items.length + 1 = limit) := by
  obtain ⟨hlimit, hkept, hdropped, hfull⟩ := offered
  unfold Quota.offer
  by_cases hover : limit ≤ items.length
  · rw [if_pos (hfull.mpr hover)]
    refine ⟨⟨hlimit, ?_, ?_, ?_⟩, ?_⟩
    · rw [List.take_append_of_le_length hover]
      exact hkept
    · rw [List.length_append, List.length_singleton]
      simp only [hdropped]
      omega
    · rw [List.length_append, List.length_singleton]
      constructor
      · intro _
        omega
      · intro _
        exact hfull.mpr hover
    · simp only [Bool.false_eq_true, false_iff]
      omega
  · have hroom : items.take limit = items := List.take_of_length_le (by omega)
    have hall : (items ++ [item]).take limit = items ++ [item] := by
      apply List.take_of_length_le
      rw [List.length_append, List.length_singleton]
      omega
    rw [if_neg fun h => hover (hfull.mp h)]
    simp only [hkept, hroom, hlimit, List.length_append, List.length_singleton]
    split
    case isTrue hfills =>
      refine ⟨⟨rfl, hall.symm, ?_, ?_⟩, ?_⟩
      · simp only [hdropped, List.length_append, List.length_singleton]
        omega
      · simp only [List.length_append, List.length_singleton, true_iff]
        exact hfills
      · simp only [true_iff]
        omega
    case isFalse hmore =>
      refine ⟨⟨rfl, hall.symm, ?_, ?_⟩, ?_⟩
      · simp only [hdropped, List.length_append, List.length_singleton]
        omega
      · simp only [List.length_append, List.length_singleton]
        rw [hfull]
        omega
      · simp only [Bool.false_eq_true, false_iff]
        omega

end Quota
end WindbgMcp.Library
