import Mathlib.Algebra.Order.Ring.Nat
import Mathlib.Data.List.Basic

/-! Masks of machine words as arithmetic on their values. -/
namespace WindbgMcp.Library.Bits

/-- Bits `low` up to `high`, in place. -/
def field (low high value : Nat) : Nat := value / 2 ^ low % 2 ^ (high - low) * 2 ^ low

theorem testBit_field (low high value i : Nat) :
    (field low high value).testBit i = (decide (low ≤ i ∧ i < high) && value.testBit i) := by
  unfold field
  rw [Nat.testBit_mul_two_pow, Nat.testBit_mod_two_pow, Nat.testBit_div_two_pow]
  by_cases hlow : low ≤ i
  · have hindex : i - low + low = i := by omega
    have hhigh : i - low < high - low ↔ i < high := by omega
    simp [hlow, hindex, hhigh]
  · simp [hlow]

theorem and_mask {low high : Nat} (h : low ≤ high) (value : Nat) :
    value &&& (2 ^ high - 2 ^ low) = field low high value := by
  apply Nat.eq_of_testBit_eq
  intro i
  have hone : 2 ^ low = (2 ^ low - 1) + 1 := (Nat.sub_add_cancel (Nat.two_pow_pos low)).symm
  have hpow : 2 ^ low ≤ 2 ^ high := Nat.pow_le_pow_right (by decide) h
  have hmask : (2 ^ high - 2 ^ low).testBit i = (decide (i < high) && decide (low ≤ i)) := by
    rw [hone, Nat.testBit_two_pow_sub_succ (by omega), Nat.testBit_two_pow_sub_one]
    by_cases hi : i < low
    · simp [hi]
    · simp [hi, Nat.le_of_not_lt hi]
  rw [Nat.testBit_and, hmask, testBit_field]
  by_cases hlow : low ≤ i <;> by_cases hhigh : i < high <;> simp [hlow, hhigh]

theorem field_lt {low high : Nat} (h : low ≤ high) (value : Nat) :
    field low high value < 2 ^ high := by
  have hpow : 2 ^ high = 2 ^ (high - low) * 2 ^ low := by
    rw [← Nat.pow_add, Nat.sub_add_cancel h]
  have hpos : 0 < 2 ^ low := Nat.two_pow_pos low
  have hmod : value / 2 ^ low % 2 ^ (high - low) < 2 ^ (high - low) :=
    Nat.mod_lt _ (Nat.two_pow_pos _)
  unfold field
  rw [hpow]
  exact Nat.mul_lt_mul_of_pos_right hmod hpos

theorem dvd_field (low high value : Nat) : 2 ^ low ∣ field low high value :=
  Nat.dvd_mul_left _ _

theorem field_field {low low' high high' : Nat} (value : Nat) :
    field low' high' (field low high value) = field (max low low') (min high high') value := by
  apply Nat.eq_of_testBit_eq
  intro i
  simp only [testBit_field]
  by_cases h : low ≤ i ∧ i < high <;> by_cases h' : low' ≤ i ∧ i < high' <;>
    simp [h, h'] <;> omega

theorem and_two_pow_ne_zero (value i : Nat) : value &&& 2 ^ i ≠ 0 ↔ value.testBit i = true := by
  have hmask : value &&& 2 ^ i = field i (i + 1) value := by
    have hpow : 2 ^ i = 2 ^ (i + 1) - 2 ^ i := by rw [Nat.pow_succ]; omega
    rw [← and_mask (Nat.le_succ i), ← hpow]
  rw [hmask, Nat.testBit_eq_decide_div_mod_eq, decide_eq_true_eq]
  have hpos : 0 < 2 ^ i := Nat.two_pow_pos i
  have hbit : value / 2 ^ i % 2 < 2 := Nat.mod_lt _ (by decide)
  unfold field
  rw [Nat.add_sub_cancel_left, Nat.pow_one, Nat.mul_ne_zero_iff]
  omega

theorem or_shiftLeft {high low value digit : Nat} (h : low ≤ high) (haligned : 2 ^ high ∣ value)
    (hdigit : digit < 2 ^ (high - low)) :
    value ||| digit <<< low = value + digit * 2 ^ low := by
  obtain ⟨quotient, rfl⟩ := haligned
  have hpow : 2 ^ high = 2 ^ (high - low) * 2 ^ low := by
    rw [← Nat.pow_add, Nat.sub_add_cancel h]
  have hlt : digit * 2 ^ low < 2 ^ high := by
    rw [hpow]
    exact Nat.mul_lt_mul_of_pos_right hdigit (Nat.two_pow_pos low)
  rw [Nat.shiftLeft_eq, Nat.two_pow_add_eq_or_of_lt hlt]

end WindbgMcp.Library.Bits
