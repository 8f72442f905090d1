import Mathlib.Data.BitVec
import Mathlib.Data.Nat.Find
import Mathlib.Data.Finset.Card

namespace NuMakerMA35

abbrev U32 := BitVec 32

instance : LawfulBEq U32 := inferInstance

def nuClz (x : U32) : Nat := if x = 0 then 32 else x.clz.toNat

/-- The lowest set bit is isolated with `x & -x`, then located by counting leading zeros. -/
def nuCtz (x : U32) : Nat := if x = 0 then 32 else 31 - nuClz (x &&& -x)

def nuCto (x : U32) : Nat := nuCtz (~~~x)

theorem and_neg_getLsbD (x : U32) (i : Nat) :
    (x &&& -x).getLsbD i = true ↔ x.getLsbD i = true ∧ ∀ j, j < i → x.getLsbD j = false := by
  rw [BitVec.getLsbD_and, BitVec.getLsbD_neg]
  by_cases hi : i < 32
  · cases hx : x.getLsbD i with
    | false => simp
    | true => simp [hi]
  · simp [BitVec.getLsbD_of_ge x i (by omega)]

theorem exists_set_bit {x : U32} (h : x ≠ 0) : ∃ i, x.getLsbD i = true := by
  by_contra none
  push Not at none
  apply h
  apply BitVec.eq_of_getLsbD_eq
  intro i _
  simp [none i]

theorem and_neg_ne_zero {x : U32} (h : x ≠ 0) : x &&& -x ≠ 0 := by
  have set := exists_set_bit h
  have lowest : (x &&& -x).getLsbD (Nat.find set) = true := by
    refine (and_neg_getLsbD x _).mpr ⟨Nat.find_spec set, ?_⟩
    intro j hj
    simpa using Nat.find_min set hj
  intro zero
  rw [zero] at lowest
  simp at lowest

theorem nuCtz_of_ne_zero {x : U32} (h : x ≠ 0) :
    nuCtz x < 32 ∧ x.getLsbD (nuCtz x) = true ∧ ∀ j, j < nuCtz x → x.getLsbD j = false := by
  have ne := and_neg_ne_zero h
  have top := BitVec.getLsbD_true_clz_of_ne_zero (x := x &&& -x) (by omega) ne
  have here : nuCtz x = 32 - 1 - (x &&& -x).clz.toNat := by
    rw [nuCtz, if_neg h, nuClz, if_neg ne]
  rw [← here] at top
  exact ⟨by omega, (and_neg_getLsbD x _).mp top⟩

theorem nuCto_eq_of_all_ones {x : U32} (h : ∀ i, i < 32 → x.getLsbD i = true) : nuCto x = 32 := by
  have zero : ~~~x = 0 := by
    apply BitVec.eq_of_getLsbD_eq
    intro i hi
    rw [BitVec.getLsbD_not, h i hi]
    simp
  simp [nuCto, nuCtz, zero]

theorem nuCto_of_zero_bit {x : U32} {i : Nat} (hi : i < 32) (h : x.getLsbD i = false) :
    nuCto x ≤ i ∧ x.getLsbD (nuCto x) = false ∧ ∀ j, j < nuCto x → x.getLsbD j = true := by
  have set : (~~~x).getLsbD i = true := by rw [BitVec.getLsbD_not, h]; simp [hi]
  have ne : ~~~x ≠ 0 := by
    intro zero
    rw [zero] at set
    simp at set
  obtain ⟨bound, top, below⟩ := nuCtz_of_ne_zero ne
  refine ⟨?_, ?_, ?_⟩
  · by_contra far
    have := below i (by unfold nuCto at far; omega)
    rw [this] at set
    simp at set
  · simpa [nuCto, bound] using top
  · intro j hj
    have := below j hj
    simpa [show j < 32 by unfold nuCto at hj; omega] using this

theorem nuCto_lt_iff (x : U32) : nuCto x < 32 ↔ ∃ i, i < 32 ∧ x.getLsbD i = false := by
  constructor
  · intro h
    by_contra none
    push Not at none
    have := nuCto_eq_of_all_ones (x := x) (fun i hi => by simpa using none i hi)
    omega
  · rintro ⟨i, hi, h⟩
    have := (nuCto_of_zero_bit hi h).1
    omega

theorem oneShift_getLsbD {i : Nat} (hi : i < 32) (j : Nat) :
    ((1 : U32) <<< i).getLsbD j = decide (j = i) := by
  rw [BitVec.getLsbD_shiftLeft, BitVec.ofNat_eq_ofNat, BitVec.getLsbD_one]
  by_cases same : j = i
  · simp [same, hi]
  · by_cases below : j < i
    · simp [same, below]
    · simp [same, show ¬j - i = 0 by omega]

theorem setBit_getLsbD (m : U32) {i : Nat} (hi : i < 32) (j : Nat) :
    (m ||| (1 : U32) <<< i).getLsbD j = (m.getLsbD j || decide (j = i)) := by
  rw [BitVec.getLsbD_or, oneShift_getLsbD hi]

theorem clearBit_getLsbD (m : U32) {i : Nat} (hi : i < 32) (j : Nat) :
    (m &&& ~~~((1 : U32) <<< i)).getLsbD j = (m.getLsbD j && decide (j ≠ i)) := by
  rw [BitVec.getLsbD_and, BitVec.getLsbD_not, oneShift_getLsbD hi]
  by_cases bound : j < 32
  · simp [bound]
  · simp [BitVec.getLsbD_of_ge m j (by omega)]

section Masks

variable {x mask keep : U32}

theorem clearMask_xor (apart : mask &&& keep = 0) : (x ^^^ (x &&& ~~~mask)) &&& keep = 0 := by
  apply BitVec.eq_of_getLsbD_eq
  intro i inside
  have here := congrArg (fun w => w.getLsbD i) apart
  simp only [BitVec.getLsbD_and] at here
  simp only [BitVec.getLsbD_and, BitVec.getLsbD_xor, BitVec.getLsbD_not, inside, decide_true,
    Bool.true_and]
  revert here
  cases x.getLsbD i <;> cases mask.getLsbD i <;> cases keep.getLsbD i <;> simp

theorem setMask_xor (apart : mask &&& keep = 0) : (x ^^^ (x ||| mask)) &&& keep = 0 := by
  apply BitVec.eq_of_getLsbD_eq
  intro i _
  have here := congrArg (fun w => w.getLsbD i) apart
  simp only [BitVec.getLsbD_and] at here
  simp only [BitVec.getLsbD_and, BitVec.getLsbD_xor, BitVec.getLsbD_or]
  revert here
  cases x.getLsbD i <;> cases mask.getLsbD i <;> cases keep.getLsbD i <;> simp

theorem clearMask_and (apart : mask &&& keep = 0) : x &&& ~~~mask &&& keep = x &&& keep := by
  apply BitVec.eq_of_getLsbD_eq
  intro i inside
  have here := congrArg (fun w => w.getLsbD i) apart
  simp only [BitVec.getLsbD_and] at here
  simp only [BitVec.getLsbD_and, BitVec.getLsbD_not, inside, decide_true, Bool.true_and]
  revert here
  cases x.getLsbD i <;> cases mask.getLsbD i <;> cases keep.getLsbD i <;> simp

theorem orMask_and (apart : mask &&& keep = 0) : (x ||| mask) &&& keep = x &&& keep := by
  rw [BitVec.and_comm, BitVec.and_or_distrib_left, BitVec.and_comm keep mask, apart, BitVec.and_comm]
  exact BitVec.or_zero

theorem clearMask_self : x &&& ~~~mask &&& mask = 0 := by
  rw [BitVec.and_assoc, BitVec.and_comm _ mask, BitVec.and_not_self]
  exact BitVec.and_zero

theorem clearMask_eq_iff : x &&& ~~~mask = x ↔ x &&& mask = 0 := by
  constructor
  · intro same
    rw [← same]
    exact clearMask_self
  · intro none
    apply BitVec.eq_of_getLsbD_eq
    intro i inside
    have here := congrArg (fun y => y.getLsbD i) none
    simp only [BitVec.getLsbD_and] at here
    rw [BitVec.getLsbD_and, BitVec.getLsbD_not]
    cases own : x.getLsbD i <;> simp_all

theorem orWords_eq_zero {y : U32} : x ||| y = 0 ↔ x = 0 ∧ y = 0 := BitVec.or_eq_zero_iff

theorem setMask_and (within : mask ≠ 0) : (x ||| mask) &&& mask ≠ 0 := by
  rw [BitVec.and_comm, BitVec.and_or_distrib_left, BitVec.and_self]
  intro none
  exact within (orWords_eq_zero.mp none).2

end Masks

theorem maskField_toNat (x : U32) {width pos : Nat} (fits : width + pos ≤ 32) :
    ((x &&& (BitVec.ofNat 32 (2 ^ width - 1) <<< pos)) >>> pos).toNat =
      x.toNat / 2 ^ pos % 2 ^ width := by
  have one : 1 ≤ 2 ^ width := Nat.one_le_two_pow
  have bound : 2 ^ width * 2 ^ pos ≤ 2 ^ 32 := by
    rw [← Nat.pow_add]
    exact Nat.pow_le_pow_right (by omega) fits
  have low : 2 ^ width ≤ 2 ^ 32 := Nat.pow_le_pow_right (by omega) (by omega)
  have mask : (BitVec.ofNat 32 (2 ^ width - 1) <<< pos).toNat = (2 ^ width - 1) <<< pos := by
    have inner : (2 ^ width - 1) % 2 ^ 32 = 2 ^ width - 1 := Nat.mod_eq_of_lt (by omega)
    rw [BitVec.toNat_shiftLeft, BitVec.toNat_ofNat, inner, Nat.mod_eq_of_lt]
    rw [Nat.shiftLeft_eq, Nat.sub_mul]
    have some : 0 < 2 ^ pos := Nat.two_pow_pos pos
    omega
  rw [BitVec.toNat_ushiftRight, BitVec.toNat_and, mask, Nat.shiftRight_and_distrib,
    Nat.shiftLeft_shiftRight, Nat.and_two_pow_sub_one_eq_mod, Nat.shiftRight_eq_div_pow]

def setBits (n : Nat) (x : U32) : Nat := ((Finset.range n).filter fun i => x.getLsbD i).card

theorem setBits_le (n : Nat) (x : U32) : setBits n x ≤ n :=
  (Finset.card_filter_le _ _).trans (Finset.card_range n).le

theorem setBits_clear {n : Nat} {x : U32} (small : n ≤ 32) (more : nuCtz x < n) :
    setBits n (x &&& ~~~((1 : U32) <<< nuCtz x)) < setBits n x := by
  have bound : nuCtz x < 32 := lt_of_lt_of_le more small
  have ne : x ≠ 0 := by
    rintro rfl
    exact absurd bound (by decide)
  apply Finset.card_lt_card
  refine (Finset.ssubset_iff_of_subset ?_).mpr ⟨nuCtz x, ?_, ?_⟩
  · intro i here
    obtain ⟨inside, set⟩ := Finset.mem_filter.mp here
    rw [clearBit_getLsbD x bound, Bool.and_eq_true] at set
    exact Finset.mem_filter.mpr ⟨inside, set.1⟩
  · exact Finset.mem_filter.mpr ⟨Finset.mem_range.mpr more, (nuCtz_of_ne_zero ne).2.1⟩
  · rw [Finset.mem_filter, clearBit_getLsbD x bound]
    simp

end NuMakerMA35
