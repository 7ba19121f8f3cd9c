import Mathlib.Algebra.Order.Ring.Int
import Mathlib.Algebra.Order.Ring.Nat

/-! The status flags an addition or a subtraction leaves, and what they are where the result
is zero. -/
namespace WindbgMcp.Library

structure StatusFlags where
  zero : Bool
  sign : Bool
  parity : Bool
  carry : Bool
  overflow : Bool
  deriving DecidableEq, Repr

namespace StatusFlags
variable {width : Nat}

def evenParity (result : BitVec width) : Bool :=
  (List.range 8).countP (fun bit => result.getLsbD bit) % 2 == 0

def ofResult (result : BitVec width) (carry overflow : Bool) : StatusFlags :=
  ⟨result == 0, result.msb, evenParity result, carry, overflow⟩

def ofSub (left right : BitVec width) : StatusFlags :=
  ofResult (left - right) (left.usubOverflow right) (left.ssubOverflow right)

def ofAdd (left right : BitVec width) : StatusFlags :=
  ofResult (left + right) (left.uaddOverflow right) (left.saddOverflow right)

/-- The flags of a zero: only the carry and the overflow depend on how it was reached. -/
theorem ofResult_zero (carry overflow : Bool) :
    ofResult (0 : BitVec width) carry overflow = ⟨true, false, true, carry, overflow⟩ := by
  simp [ofResult, evenParity]

theorem ofSub_of_eq_zero {left right : BitVec width} (h : left - right = 0) :
    ofSub left right = ⟨true, false, true, false, false⟩ := by
  have hequal : left = right := by
    rw [← BitVec.sub_add_cancel left right, h, BitVec.ofNat_eq_ofNat, BitVec.zero_add]
  have hborrow : left.usubOverflow right = false := by
    simp [BitVec.usubOverflow, hequal]
  have hoverflow : left.ssubOverflow right = false := by
    simp [BitVec.ssubOverflow, hequal]
  unfold ofSub
  rw [h, ofResult_zero, hborrow, hoverflow]

theorem toNat_add_of_eq_zero {left right : BitVec width} (h : left + right = 0) :
    (left.toNat = 0 ∧ right.toNat = 0) ∨
      (right.toNat ≠ 0 ∧ left.toNat + right.toNat = 2 ^ width) := by
  have hsum : (left.toNat + right.toNat) % 2 ^ width = 0 := by
    rw [← BitVec.toNat_add, h, BitVec.ofNat_eq_ofNat, BitVec.toNat_ofNat, Nat.zero_mod]
  have hleft := left.isLt
  have hright := right.isLt
  obtain ⟨turns, hturns⟩ := Nat.dvd_of_mod_eq_zero hsum
  have hfew : turns < 2 := by
    by_contra hmany
    have hlarge : 2 ^ width * 2 ≤ 2 ^ width * turns := Nat.mul_le_mul_left _ (by omega)
    omega
  obtain rfl | rfl : turns = 0 ∨ turns = 1 := by omega
  · omega
  · omega

theorem uaddOverflow_of_eq_zero {left right : BitVec width} (h : left + right = 0) :
    left.uaddOverflow right = decide (right.toNat ≠ 0) := by
  have hpos := Nat.two_pow_pos width
  unfold BitVec.uaddOverflow
  apply decide_eq_decide.mpr
  rcases toNat_add_of_eq_zero h with ⟨hleft, hright⟩ | ⟨hright, hsum⟩ <;> omega

theorem saddOverflow_of_eq_zero {left right : BitVec width} (hwidth : 0 < width)
    (h : left + right = 0) :
    left.saddOverflow right = decide (right.toNat = 2 ^ (width - 1)) := by
  obtain ⟨size, rfl⟩ : ∃ size, width = size + 1 := ⟨width - 1, by omega⟩
  have hpos := Nat.two_pow_pos size
  have hturn : 2 ^ (size + 1) = 2 ^ size * 2 := pow_succ 2 size
  unfold BitVec.saddOverflow
  rw [BitVec.toInt_eq_toNat_cond, BitVec.toInt_eq_toNat_cond, Nat.add_sub_cancel]
  rw [← Bool.decide_or]
  apply decide_eq_decide.mpr
  have hcast : (2 : Int) ^ size = ((2 ^ size : Nat) : Int) := by push_cast; rfl
  rw [hcast]
  have hleft := left.isLt
  have hright := right.isLt
  rcases toNat_add_of_eq_zero h with ⟨hleft, hright⟩ | ⟨hright, hsum⟩
  · split <;> split <;> omega
  · split <;> split <;> omega

theorem ofAdd_of_eq_zero {left right : BitVec width} (hwidth : 0 < width)
    (h : left + right = 0) :
    ofAdd left right = ⟨true, false, true, decide (right.toNat ≠ 0),
      decide (right.toNat = 2 ^ (width - 1))⟩ := by
  unfold ofAdd
  rw [h, ofResult_zero, uaddOverflow_of_eq_zero h, saddOverflow_of_eq_zero hwidth h]

end StatusFlags
end WindbgMcp.Library
