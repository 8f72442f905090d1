import Mathlib.Algebra.Order.Ring.Abs
import Mathlib.Tactic.Linarith

namespace NuMakerMA35

namespace Nearest

variable {K : Type} [Field K] [LinearOrder K] [IsStrictOrderedRing K] {r : Nat → K} {k top : Nat}
  {a b x : K}

theorem abs_sub_le_iff_middle (less : b < a) : |a - x| ≤ |b - x| ↔ a + b ≤ 2 * x := by
  constructor
  · intro near
    by_contra far
    rcases abs_cases (a - x) with h | h <;> rcases abs_cases (b - x) with h' | h' <;> linarith
  · intro middle
    rcases abs_cases (a - x) with h | h <;> rcases abs_cases (b - x) with h' | h' <;> linarith

theorem abs_sub_ge_iff_middle (less : b < a) : |b - x| ≤ |a - x| ↔ 2 * x ≤ a + b := by
  have flipped := abs_sub_le_iff_middle (x := -x) (neg_lt_neg less)
  rw [neg_sub_neg, neg_sub_neg, abs_sub_comm x, abs_sub_comm x] at flipped
  rw [flipped]
  constructor <;> intro h <;> linarith

theorem iff_middles (down : ∀ i j, i < j → r j < r i) (inside : k ≤ top) :
    (∀ j ≤ top, |r k - x| ≤ |r j - x|) ↔
      (k = 0 ∨ 2 * x ≤ r (k - 1) + r k) ∧ (k = top ∨ r k + r (k + 1) ≤ 2 * x) := by
  constructor
  · intro near
    constructor
    · by_cases first : k = 0
      · exact Or.inl first
      · exact Or.inr ((abs_sub_ge_iff_middle (down _ _ (by omega))).mp (near (k - 1) (by omega)))
    · by_cases last : k = top
      · exact Or.inl last
      · exact Or.inr ((abs_sub_le_iff_middle (down _ _ (by omega))).mp (near (k + 1) (by omega)))
  · rintro ⟨before, after⟩ j bound
    rcases Nat.lt_trichotomy j k with less | same | more
    · have middle := before.resolve_left (by omega)
      rw [abs_sub_ge_iff_middle (down j k less)]
      rcases Nat.lt_or_eq_of_le (Nat.le_sub_one_of_lt less) with far | next
      · linarith [down j (k - 1) far]
      · rwa [next]
    · rw [same]
    · have middle := after.resolve_left (by omega)
      rw [abs_sub_le_iff_middle (down k j more)]
      rcases Nat.lt_or_eq_of_le (Nat.succ_le_of_lt more) with far | next
      · linarith [down (k + 1) j far]
      · rwa [← next]

end Nearest

end NuMakerMA35
