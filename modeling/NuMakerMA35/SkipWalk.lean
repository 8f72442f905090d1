import Mathlib.Data.Nat.Count

namespace NuMakerMA35.SkipWalk

variable (usable : Nat → Bool)

def usableBefore (x : Nat) : Nat := Nat.count (fun y => usable y = true) x

/-- `x` is one of the first `count` usable places from `start` on. -/
def Reaches (start count x : Nat) : Prop :=
  start ≤ x ∧ usable x = true ∧ usableBefore usable x < usableBefore usable start + count

instance (start count x : Nat) : Decidable (Reaches usable start count x) :=
  inferInstanceAs (Decidable (_ ∧ _ ∧ _))

variable {usable}

theorem usableBefore_mono {x y : Nat} (h : x ≤ y) : usableBefore usable x ≤ usableBefore usable y :=
  Nat.count_monotone _ h

theorem usableBefore_skip {s k : Nat} (none : ∀ y, s ≤ y → y < s + k → usable y = false) :
    usableBefore usable (s + k) = usableBefore usable s := by
  have inside : Nat.count (fun y => usable (s + y) = true) k = 0 := by
    rw [Nat.count_eq_card_filter_range, Finset.card_eq_zero, Finset.filter_eq_empty_iff]
    intro y hy
    simp [none (s + y) (by omega) (by have := Finset.mem_range.mp hy; omega)]
  unfold usableBefore
  rw [Nat.count_add, inside, Nat.add_zero]

theorem usableBefore_take {s k : Nat} (all : ∀ y, s ≤ y → y < s + k → usable y = true) :
    usableBefore usable (s + k) = usableBefore usable s + k := by
  have inside : Nat.count (fun y => usable (s + y) = true) k = k := by
    rw [Nat.count_eq_card_filter_range, Finset.filter_true_of_mem, Finset.card_range]
    intro y hy
    exact all (s + y) (by omega) (by have := Finset.mem_range.mp hy; omega)
  unfold usableBefore
  rw [Nat.count_add, inside]

theorem not_reaches_zero {s x : Nat} : ¬Reaches usable s 0 x := by
  rintro ⟨after, -, few⟩
  have := @usableBefore_mono usable s x after
  omega

theorem Reaches.mono {s n m x : Nat} (h : Reaches usable s n x) (more : n ≤ m) :
    Reaches usable s m x := by
  obtain ⟨after, here, few⟩ := h
  exact ⟨after, here, by omega⟩

theorem reaches_skip {s k n x : Nat} (none : ∀ y, s ≤ y → y < s + k → usable y = false) :
    Reaches usable s n x ↔ Reaches usable (s + k) n x := by
  unfold Reaches
  rw [usableBefore_skip none]
  constructor
  · rintro ⟨after, here, few⟩
    refine ⟨?_, here, few⟩
    by_contra early
    rw [none x after (by omega)] at here
    cases here
  · rintro ⟨after, here, few⟩
    exact ⟨by omega, here, few⟩

theorem reaches_take {s k n x : Nat} (all : ∀ y, s ≤ y → y < s + k → usable y = true) (room : k ≤ n) :
    Reaches usable s n x ↔ (s ≤ x ∧ x < s + k) ∨ Reaches usable (s + k) (n - k) x := by
  unfold Reaches
  rw [usableBefore_take all]
  constructor
  · rintro ⟨after, here, few⟩
    by_cases early : x < s + k
    · exact .inl ⟨after, early⟩
    · exact .inr ⟨by omega, here, by omega⟩
  · rintro (⟨after, early⟩ | ⟨after, here, few⟩)
    · have upTo : usableBefore usable x = usableBefore usable s + (x - s) := by
        have part := @usableBefore_take usable s (x - s) fun y low high => all y low (by omega)
        rwa [Nat.add_sub_cancel' after] at part
      exact ⟨after, all x after early, by omega⟩
    · exact ⟨by omega, here, by omega⟩

/-- Two walks have a place in common exactly if the one that starts first gets to where the other
starts; `y` is any place that the other reaches. -/
theorem reaches_meet_iff {s t n m y : Nat} (order : s ≤ t) (there : Reaches usable t m y) :
    (∃ x, x ≤ y ∧ Reaches usable s n x ∧ Reaches usable t m x) ↔
      usableBefore usable t < usableBefore usable s + n := by
  obtain ⟨afterY, hereY, fewY⟩ := there
  constructor
  · rintro ⟨x, -, ⟨-, -, few⟩, after, -, -⟩
    have := @usableBefore_mono usable t x after
    omega
  · intro few
    have later : ∃ x, t ≤ x ∧ usable x = true := ⟨y, afterY, hereY⟩
    obtain ⟨after, here⟩ := Nat.find_spec later
    have first : usableBefore usable (Nat.find later) = usableBefore usable t := by
      have skipped := @usableBefore_skip usable t (Nat.find later - t) (by
        intro z low high
        have := Nat.find_min later (m := z) (by omega)
        simpa [low] using this)
      rwa [Nat.add_sub_cancel' after] at skipped
    have upTo := @usableBefore_mono usable t y afterY
    exact ⟨Nat.find later, Nat.find_min' later ⟨afterY, hereY⟩, ⟨by omega, here, by omega⟩,
      after, here, by omega⟩

/-- A walk ends before `b` exactly if it has room there; `y` is any usable place behind. -/
theorem reaches_below_iff {s b n y : Nat} (order : s ≤ b) (behind : b ≤ y) (here : usable y = true) :
    (∀ x, x ≤ y → Reaches usable s n x → x < b) ↔
      usableBefore usable s + n ≤ usableBefore usable b := by
  constructor
  · intro below
    by_contra few
    have there : Reaches usable b (usableBefore usable y + 1) y := ⟨behind, here, by omega⟩
    obtain ⟨x, upTo, reached, after, -, -⟩ := (reaches_meet_iff order there).mpr (Nat.lt_of_not_le few)
    exact absurd (below x upTo reached) (Nat.not_lt.mpr after)
  · intro room x _ reached
    by_contra after
    have := @usableBefore_mono usable b x (Nat.le_of_not_lt after)
    have := reached.2.2
    omega

end NuMakerMA35.SkipWalk
