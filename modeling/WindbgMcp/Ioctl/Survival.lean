import WindbgMcp.Ioctl.Update
import WindbgMcp.Library.StatusFlags

/-! Which edge of a branch an equality survives on: the one the machine takes on the flags that
equality leaves. -/
namespace WindbgMcp.Ioctl
open Library

def Condition.takes (flags : StatusFlags) : Condition → Bool
  | .equal => flags.zero
  | .notEqual => !flags.zero
  | .unsignedAbove => !flags.carry && !flags.zero
  | .unsignedAboveOrEqual => !flags.carry
  | .unsignedBelow => flags.carry
  | .unsignedBelowOrEqual => flags.carry || flags.zero
  | .signedGreater => !flags.zero && flags.sign == flags.overflow
  | .signedGreaterOrEqual => flags.sign == flags.overflow
  | .signedLess => flags.sign != flags.overflow
  | .signedLessOrEqual => flags.zero || flags.sign != flags.overflow
  | .negative => flags.sign
  | .notNegative => !flags.sign
  | .overflow => flags.overflow
  | .notOverflow => !flags.overflow
  | .parity => flags.parity
  | .notParity => !flags.parity

def Equality.status (equality : Equality) : StatusFlags :=
  ⟨true, false, true, equality.carry, equality.overflow⟩

theorem equalitySurvives_eq {condition : Condition}
    (hcase : condition ≠ .equal ∧ condition ≠ .notEqual) (equality : Equality) :
    equalitySurvives condition equality =
      (condition.takes equality.status, !condition.takes equality.status) := by
  obtain ⟨carry, overflow⟩ := equality
  cases condition with
  | equal => exact absurd rfl hcase.1
  | notEqual => exact absurd rfl hcase.2
  | _ => cases carry <;> cases overflow <;> rfl

theorem ofSub_status {width : Nat} {destination amount : BitVec width}
    (h : destination - amount = 0) :
    StatusFlags.ofSub destination amount = Equality.subtractive.status :=
  StatusFlags.ofSub_of_eq_zero h

theorem ofAdd_status {width amount : Nat} (hwidth : 0 < width)
    (hamount : amount < 2 ^ (width * 8)) {destination : BitVec (width * 8)}
    (h : destination + BitVec.ofNat (width * 8) amount = 0) :
    StatusFlags.ofAdd destination (BitVec.ofNat (width * 8) amount) =
      (Equality.afterAdd amount width).status := by
  rw [StatusFlags.ofAdd_of_eq_zero (by omega) h, BitVec.toNat_ofNat, Nat.mod_eq_of_lt hamount]
  unfold Equality.afterAdd Equality.status
  by_cases hzero : amount = 0
  · subst hzero
    have hpos := Nat.two_pow_pos (width * 8 - 1)
    simp [Equality.subtractive, hpos.ne]
  · simp [hzero, Bool.beq_eq_decide_eq]

/-- An equality survives on just the edge the machine takes on the flags that led to it, after
a compare or a `sub` and after an `add`. -/
theorem equalitySurvives_iff {width : Nat} (hwidth : width = 4 ∨ width = 8) {amount : Nat}
    (hamount : amount < 2 ^ (width * 8)) {condition : Condition}
    (hcase : condition ≠ .equal ∧ condition ≠ .notEqual) (destination : BitVec (width * 8)) :
    (destination - BitVec.ofNat (width * 8) amount = 0 →
      (condition.takes (.ofSub destination (BitVec.ofNat (width * 8) amount)) = true ↔
        (equalitySurvives condition .subtractive).1 = true) ∧
      (condition.takes (.ofSub destination (BitVec.ofNat (width * 8) amount)) = false ↔
        (equalitySurvives condition .subtractive).2 = true)) ∧
    (destination + BitVec.ofNat (width * 8) amount = 0 →
      (condition.takes (.ofAdd destination (BitVec.ofNat (width * 8) amount)) = true ↔
        (equalitySurvives condition (.afterAdd amount width)).1 = true) ∧
      (condition.takes (.ofAdd destination (BitVec.ofNat (width * 8) amount)) = false ↔
        (equalitySurvives condition (.afterAdd amount width)).2 = true)) := by
  constructor
  · intro hzero
    rw [ofSub_status hzero, equalitySurvives_eq hcase, Bool.not_eq_true']
    exact ⟨Iff.rfl, Iff.rfl⟩
  · intro hzero
    rw [ofAdd_status (by omega) hamount hzero, equalitySurvives_eq hcase, Bool.not_eq_true']
    exact ⟨Iff.rfl, Iff.rfl⟩

/-- `add eax, 80000000h` reaching zero overflows, so `jl` is taken. -/
theorem equalitySurvives_iff_signBit :
    (equalitySurvives .signedLess (.afterAdd 0x80000000 4)).1 = true ∧
      (equalitySurvives .signedLess .subtractive).2 = true := by
  have h := @equalitySurvives_iff 4 (Or.inl rfl) 0x80000000 (by decide) .signedLess (by decide)
    0x80000000
  exact ⟨(h.2 (by decide)).1.mp (by decide), (h.1 (by decide)).2.mp (by decide)⟩

end WindbgMcp.Ioctl
