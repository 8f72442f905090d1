import Mathlib.Algebra.Group.Nat.Defs
import Mathlib.Logic.Function.Basic

namespace NuMakerMA35

def maskedWrite {w : Nat} (mask value x : BitVec w) : BitVec w := x &&& ~~~mask ||| value

def fieldMask (w width pos : Nat) : BitVec w := BitVec.ofNat w (2 ^ width - 1) <<< pos

namespace MaskedWrite

variable {w : Nat} {mask mask' value value' x : BitVec w} {width pos i : Nat}

theorem and_or_and_not (x mask : BitVec w) : x &&& ~~~mask ||| x &&& mask = x := by
  rw [← BitVec.and_or_distrib_left, BitVec.or_comm, BitVec.or_not_self]
  exact BitVec.and_allOnes

theorem within_and (within : value &&& ~~~mask = 0) : value &&& mask = value := by
  have whole := and_or_and_not value mask
  rw [within] at whole
  exact BitVec.zero_or.symm.trans whole

theorem read_back (within : value &&& ~~~mask = 0) : maskedWrite mask value x &&& mask = value := by
  have cleared : x &&& ~~~mask &&& mask = 0 := by
    rw [BitVec.and_assoc, BitVec.not_and_self]
    exact BitVec.and_zero
  rw [maskedWrite, BitVec.and_or_distrib_right, cleared, within_and within]
  exact BitVec.zero_or

theorem eq_self_iff (within : value &&& ~~~mask = 0) :
    maskedWrite mask value x = x ↔ x &&& mask = value := by
  constructor
  · intro same
    rw [← same]
    exact read_back within
  · intro held
    rw [maskedWrite, ← held]
    exact and_or_and_not x mask

theorem set_all : maskedWrite mask mask x = x ||| mask := by
  apply BitVec.eq_of_getLsbD_eq
  intro i inside
  simp only [maskedWrite, BitVec.getLsbD_or, BitVec.getLsbD_and, BitVec.getLsbD_not]
  cases x.getLsbD i <;> cases mask.getLsbD i <;> simp [inside]

theorem again : maskedWrite mask value (maskedWrite mask value x) = maskedWrite mask value x := by
  apply BitVec.eq_of_getLsbD_eq
  intro i inside
  simp only [maskedWrite, BitVec.getLsbD_or, BitVec.getLsbD_and, BitVec.getLsbD_not]
  cases x.getLsbD i <;> cases mask.getLsbD i <;> cases value.getLsbD i <;> simp

theorem and_outside (within : value &&& ~~~mask = 0) (inside : mask &&& ~~~mask' = 0) :
    maskedWrite mask value x &&& ~~~mask' = x &&& ~~~mask' := by
  have out : value &&& ~~~mask' = 0 := by
    rw [← within_and within, BitVec.and_assoc, inside]
    exact BitVec.and_zero
  have kept : ~~~mask &&& ~~~mask' = ~~~mask' := by
    have whole := and_or_and_not (~~~mask') mask
    rw [BitVec.and_comm _ mask, inside, BitVec.and_comm] at whole
    exact BitVec.or_zero.symm.trans whole
  rw [maskedWrite, BitVec.and_or_distrib_right, out, BitVec.and_assoc, kept]
  exact BitVec.or_zero

theorem getLsbD_outside (within : value &&& ~~~mask = 0) (outside : mask.getLsbD i = false) :
    (maskedWrite mask value x).getLsbD i = x.getLsbD i := by
  by_cases inside : i < w
  · have none : value.getLsbD i = false := by
      have here := congrArg (fun y => y.getLsbD i) within
      rw [BitVec.getLsbD_and, BitVec.getLsbD_not, outside] at here
      simpa [inside] using here
    rw [maskedWrite, BitVec.getLsbD_or, BitVec.getLsbD_and, BitVec.getLsbD_not, outside, none]
    simp [inside]
  · rw [BitVec.getLsbD_of_ge _ _ (by omega), BitVec.getLsbD_of_ge _ _ (by omega)]

theorem getLsbD_inside (inside : mask.getLsbD i = true) :
    (maskedWrite mask value x).getLsbD i = value.getLsbD i := by
  simp [maskedWrite, inside]

theorem comm (apart : mask &&& mask' = 0) (within : value &&& ~~~mask = 0)
    (within' : value' &&& ~~~mask' = 0) :
    maskedWrite mask value (maskedWrite mask' value' x) =
      maskedWrite mask' value' (maskedWrite mask value x) := by
  apply BitVec.eq_of_getLsbD_eq
  intro i inside
  have other : ¬(mask.getLsbD i = true ∧ mask'.getLsbD i = true) := by
    rintro ⟨first, second⟩
    have here := congrArg (fun y => y.getLsbD i) apart
    simp [first, second] at here
  cases first : mask.getLsbD i with
  | true =>
    have second : mask'.getLsbD i = false := by simpa [first] using other
    rw [getLsbD_inside first, getLsbD_outside within' second, getLsbD_inside first]
  | false =>
    rw [getLsbD_outside within first]
    cases second : mask'.getLsbD i with
    | true => rw [getLsbD_inside second, getLsbD_inside second]
    | false =>
      rw [getLsbD_outside within' second, getLsbD_outside within' second, getLsbD_outside within first]

theorem fieldMask_getLsbD (fits : pos + width ≤ w) :
    (fieldMask w width pos).getLsbD i = decide (pos ≤ i ∧ i < pos + width) := by
  unfold fieldMask
  rw [BitVec.getLsbD_shiftLeft, BitVec.getLsbD_ofNat, Nat.testBit_two_pow_sub_one]
  by_cases low : i < pos
  · simp [low, show ¬(pos ≤ i ∧ i < pos + width) by omega]
  · by_cases high : i < pos + width
    · simp [low, high, show i < w by omega, show i - pos < width by omega, Nat.le_of_not_lt low,
        show i - pos < w by omega]
    · simp [high, show ¬i - pos < width by omega]

theorem field_within {n : Nat} (small : n < 2 ^ width) (fits : pos + width ≤ w) :
    (BitVec.ofNat w n <<< pos) &&& ~~~fieldMask w width pos = 0 := by
  apply BitVec.eq_of_getLsbD_eq
  intro i inside
  rw [BitVec.getLsbD_and, BitVec.getLsbD_not, fieldMask_getLsbD fits, BitVec.getLsbD_shiftLeft,
    BitVec.getLsbD_ofNat]
  by_cases low : i < pos
  · simp [low]
  · by_cases high : i < pos + width
    · simp [high, Nat.le_of_not_lt low]
    · have none : n.testBit (i - pos) = false := by
        apply Nat.testBit_lt_two_pow
        exact Nat.lt_of_lt_of_le small (Nat.pow_le_pow_right (by omega) (by omega))
      simp [none]

def readField (x : BitVec w) (width pos : Nat) : Nat := x.toNat / 2 ^ pos % 2 ^ width

theorem readField_testBit : (readField x width pos).testBit i =
    (decide (i < width) && x.getLsbD (pos + i)) := by
  unfold readField
  rw [Nat.testBit_mod_two_pow, Nat.testBit_div_two_pow, BitVec.testBit_toNat, Nat.add_comm]

theorem readField_write {n : Nat} (small : n < 2 ^ width) (fits : pos + width ≤ w) :
    readField (maskedWrite (fieldMask w width pos) (BitVec.ofNat w n <<< pos) x) width pos = n := by
  apply Nat.eq_of_testBit_eq
  intro i
  rw [readField_testBit]
  by_cases inside : i < width
  · have own : (fieldMask w width pos).getLsbD (pos + i) = true := by
      rw [fieldMask_getLsbD fits]
      exact decide_eq_true ⟨by omega, by omega⟩
    rw [getLsbD_inside own, BitVec.getLsbD_shiftLeft, BitVec.getLsbD_ofNat, Nat.add_sub_cancel_left]
    simp [inside, show pos + i < w by omega, show i < w by omega]
  · rw [decide_eq_false inside, Bool.false_and]
    symm
    apply Nat.testBit_lt_two_pow
    exact Nat.lt_of_lt_of_le small (Nat.pow_le_pow_right (by omega) (by omega))

end MaskedWrite

end NuMakerMA35
