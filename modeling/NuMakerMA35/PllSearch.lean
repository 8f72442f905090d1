import NuMakerMA35.Pll
import Mathlib.Tactic.IntervalCases

namespace NuMakerMA35

open Checked

structure PllTriple where
  m : Nat
  n : Nat
  p : Nat

deriving instance DecidableEq for PllTriple

def pllTriples : List PllTriple :=
  (List.range' 1 24).flatMap fun m =>
    let low := max 16 (600000000 / (pllHxt / m))
    let high := min 2047 (2400000000 / (pllHxt / m))
    (List.range' low (high + 1 - low)).flatMap fun n =>
      (List.range' 1 7).map fun p => ⟨m, n, p⟩

def PllTriple.dist (freq : Nat) (t : PllTriple) : Nat :=
  let f := pllHxt / t.m * t.n / t.p
  if f > freq then f - freq else freq - f

def pllCandidates (src : Nat) : List PllTriple :=
  let low := max 1 (src / 40000000)
  let high := min 63 (src / 1000000)
  (List.range' low (high + 1 - low)).flatMap fun m =>
    let low := max 16 (600000000 / (src / m))
    let high := min 2047 (2400000000 / (src / m))
    (List.range' low (high + 1 - low)).flatMap fun n =>
      (List.range' 1 (min 7 (src / m * n / 85700000))).map fun p => ⟨m, n, p⟩

/-- How far the solution is from the frequency, by the quotients of the search. -/
def PllTriple.wholeDist (src freq : Nat) (t : PllTriple) : Nat :=
  let f := src / t.m * t.n / t.p
  if f > freq then f - freq else freq - f

/-- The dividers are in the ranges of the search. -/
structure PllTriple.Searched (src : Nat) (t : PllTriple) : Prop where
  m : max 1 (src / 40000000) ≤ t.m ∧ t.m ≤ min 63 (src / 1000000)
  n : max 16 (600000000 / (src / t.m)) ≤ t.n ∧ t.n ≤ min 2047 (2400000000 / (src / t.m))
  p : 1 ≤ t.p ∧ t.p ≤ min 7 (src / t.m * t.n / 85700000)

def PllBest.ofFirst (s : FirstLeast PllTriple) : PllBest :=
  match s.best with
  | none => ⟨s.least, 0, 0, 0, decide (s.least = 0)⟩
  | some t => ⟨s.least, t.m, t.n, t.p, decide (s.least = 0)⟩

theorem FirstLeast.foldl_zero {α : Type} {f : α → Nat} {s : FirstLeast α} (exact : s.least = 0)
    (l : List α) : l.foldl (FirstLeast.step f) s = s := by
  induction l with
  | nil => rfl
  | cons x l ih =>
    have stay : FirstLeast.step f s x = s := by
      unfold FirstLeast.step
      rw [exact, if_neg (Nat.not_lt_zero _)]
    rw [List.foldl_cons, stay, ih]

section Search

variable {src freq m n p : Nat} {s : FirstLeast PllTriple} {t : PllTriple}

theorem mem_pllCandidates : t ∈ pllCandidates src ↔ t.Searched src := by
  unfold pllCandidates
  simp only [List.mem_flatMap, List.mem_map, List.mem_range'_1]
  constructor
  · rintro ⟨m, hm, n, hn, p, hp, rfl⟩
    constructor <;> dsimp only <;> omega
  · rintro ⟨hm, hn, hp⟩
    exact ⟨t.m, by omega, t.n, by omega, t.p, by omega, rfl⟩

/-- The reference clock of a candidate; it can be above its limit of 40 MHz. -/
theorem reference_bounds (least : max 1 (src / 40000000) ≤ m) (most : m ≤ min 63 (src / 1000000)) :
    1000000 ≤ src / m ∧ src / m < 80000000 := by
  constructor
  · rw [Nat.le_div_iff_mul_le (by omega)]
    omega
  · rw [Nat.div_lt_iff_lt_mul (by omega)]
    omega

theorem vco_bounds (reference : 1000000 ≤ src / m ∧ src / m < 80000000)
    (least : max 16 (600000000 / (src / m)) ≤ n) (most : n ≤ min 2047 (2400000000 / (src / m))) :
    520000000 ≤ src / m * n ∧ src / m * n ≤ 2400000000 := by
  have split := Nat.div_add_mod 600000000 (src / m)
  have rest := Nat.mod_lt 600000000 (show 0 < src / m by omega)
  have up : src / m * (600000000 / (src / m)) ≤ src / m * n :=
    Nat.mul_le_mul_left _ ((le_max_right _ _).trans least)
  have down : src / m * n ≤ src / m * (2400000000 / (src / m)) :=
    Nat.mul_le_mul_left _ (most.trans (min_le_right _ _))
  have whole := Nat.mul_div_le 2400000000 (src / m)
  omega

theorem PllTriple.wholeDist_lt (vco : src / t.m * t.n ≤ 2400000000) (inside : freq ≤ 2400000000) :
    t.wholeDist src freq < 2 ^ 32 - 1 := by
  have quotient := (Nat.div_le_self (src / t.m * t.n) t.p).trans vco
  unfold PllTriple.wholeDist
  generalize src / t.m * t.n / t.p = f at quotient
  dsimp only
  split_ifs
  · omega
  · omega

theorem PllBest.ofFirst_found : (PllBest.ofFirst s).found = decide (s.least = 0) := by
  unfold PllBest.ofFirst
  cases s.best <;> rfl

theorem PllBest.ofFirst_min : (PllBest.ofFirst s).min = s.least := by
  unfold PllBest.ofFirst
  cases s.best <;> rfl

theorem calPllFreqMode0P_eq (some : 0 < p) (vco : src / m * n ≤ 2400000000)
    (inside : freq ≤ 2400000000) :
    calPllFreqMode0P freq (src / m * n) m n (PllBest.ofFirst s) p =
      pure (PllBest.ofFirst (FirstLeast.step (PllTriple.wholeDist src freq) s ⟨m, n, p⟩)) := by
  unfold calPllFreqMode0P
  rw [PllBest.ofFirst_found]
  by_cases exact : s.least = 0
  · have stay := FirstLeast.foldl_zero (f := PllTriple.wholeDist src freq) exact [⟨m, n, p⟩]
    rw [List.foldl_cons, List.foldl_nil] at stay
    rw [stay, decide_eq_true exact, if_pos rfl]
  · have small : PllTriple.wholeDist src freq ⟨m, n, p⟩ < 2 ^ 32 :=
      (PllTriple.wholeDist_lt vco inside).trans (by decide)
    rw [decide_eq_false exact, if_neg Bool.false_ne_true, quot_of_pos some, pure_bind]
    unfold PllTriple.wholeDist at small
    dsimp only at small ⊢
    rw [fit_of_lt small, pure_bind, PllBest.ofFirst_min]
    unfold FirstLeast.step
    have value : PllTriple.wholeDist src freq ⟨m, n, p⟩ = if src / m * n / p > freq
      then src / m * n / p - freq else freq - src / m * n / p := rfl
    rw [value]
    split_ifs <;> rfl

theorem calPllFreqMode0N_eq (vco : 520000000 ≤ src / m * n ∧ src / m * n ≤ 2400000000)
    (inside : freq ≤ 2400000000) :
    calPllFreqMode0N freq (src / m) m (PllBest.ofFirst s) n =
      pure (PllBest.ofFirst (((List.range' 1 (min 7 (src / m * n / 85700000))).map
        fun p => (⟨m, n, p⟩ : PllTriple)).foldl
          (FirstLeast.step (PllTriple.wholeDist src freq)) s)) := by
  unfold calPllFreqMode0N
  rw [PllBest.ofFirst_found]
  by_cases exact : s.least = 0
  · rw [FirstLeast.foldl_zero exact, decide_eq_true exact, if_pos rfl]
  · have one : src / m * n / vsipllFclkoMaxFreq ≤ 1 := by
      unfold vsipllFclkoMaxFreq
      omega
    have room : src / m * n / vsipllFclkoMinFreq < 2 ^ 32 := by
      have := Nat.div_le_self (src / m * n) vsipllFclkoMinFreq
      omega
    have maximum : (if src / m * n / vsipllFclkoMinFreq < 7 then src / m * n / vsipllFclkoMinFreq
        else 7) = min 7 (src / m * n / 85700000) := by
      unfold vsipllFclkoMinFreq
      split_ifs <;> omega
    rw [decide_eq_false exact, if_neg Bool.false_ne_true, fit_of_lt (by omega), pure_bind,
      fit_of_lt (by omega), pure_bind, fit_of_lt room, pure_bind]
    dsimp only
    rw [if_neg (by omega), maximum, Nat.add_sub_cancel, List.foldl_map]
    apply foldlM_of_pure
    intro s p here
    rw [List.mem_range'_1] at here
    exact calPllFreqMode0P_eq (by omega) vco.2 inside

theorem calPllFreqMode0M_eq (reference : 1000000 ≤ src / m ∧ src / m < 80000000) (some : 0 < m)
    (inside : freq ≤ 2400000000) :
    calPllFreqMode0M src freq (PllBest.ofFirst s) m =
      pure (PllBest.ofFirst ((
        let low := max 16 (600000000 / (src / m))
        let high := min 2047 (2400000000 / (src / m))
        (List.range' low (high + 1 - low)).flatMap fun n =>
          (List.range' 1 (min 7 (src / m * n / 85700000))).map
            fun p => (⟨m, n, p⟩ : PllTriple)).foldl
        (FirstLeast.step (PllTriple.wholeDist src freq)) s)) := by
  unfold calPllFreqMode0M
  rw [PllBest.ofFirst_found]
  by_cases exact : s.least = 0
  · rw [FirstLeast.foldl_zero exact, decide_eq_true exact, if_pos rfl]
  · have minimum : (if vsipllFclkMinFreq / (src / m) > 16 then vsipllFclkMinFreq / (src / m)
        else 16) = max 16 (600000000 / (src / m)) := by
      unfold vsipllFclkMinFreq
      split_ifs <;> omega
    have maximum : (if vsipllFclkMaxFreq / (src / m) < 2047
        then vsipllFclkMaxFreq / (src / m) else 2047) = min 2047 (2400000000 / (src / m)) := by
      unfold vsipllFclkMaxFreq
      split_ifs <;> omega
    rw [decide_eq_false exact, if_neg Bool.false_ne_true, quot_of_pos some, pure_bind,
      quot_of_pos (by omega), pure_bind, quot_of_pos (by omega), pure_bind]
    dsimp only
    rw [minimum, maximum, List.foldl_flatMap]
    apply foldlM_of_pure
    intro s n here
    rw [List.mem_range'_1] at here
    exact calPllFreqMode0N_eq (vco_bounds reference here.1 (by omega)) inside

theorem calPllFreqMode0_search (src : Nat) (inside : freq ≤ 2400000000) :
    (List.range' (max 1 (src / 40000000))
      (min 63 (src / 1000000) + 1 - max 1 (src / 40000000))).foldlM (calPllFreqMode0M src freq)
        ⟨2 ^ 32 - 1, 0, 0, 0, false⟩ =
      pure (PllBest.ofFirst ⟨(((pllCandidates src).argmin (PllTriple.wholeDist src freq)).map
        (PllTriple.wholeDist src freq)).getD (2 ^ 32 - 1),
          (pllCandidates src).argmin (PllTriple.wholeDist src freq)⟩) := by
  have below : ∀ t ∈ pllCandidates src, t.wholeDist src freq < 2 ^ 32 - 1 := by
    intro t here
    obtain ⟨hm, hn, hp⟩ := mem_pllCandidates.mp here
    exact PllTriple.wholeDist_lt (vco_bounds (reference_bounds hm.1 hm.2) hn.1 hn.2).2 inside
  have start : (⟨2 ^ 32 - 1, 0, 0, 0, false⟩ : PllBest) = PllBest.ofFirst ⟨2 ^ 32 - 1, none⟩ := rfl
  rw [start, ← FirstLeast.foldl_eq _ below, pllCandidates, List.foldl_flatMap]
  apply foldlM_of_pure
  intro s m here
  rw [List.mem_range'_1] at here
  exact calPllFreqMode0M_eq (reference_bounds here.1 (by omega)) (by omega) inside

theorem lowest_reference (src : Nat) :
    (if src / vsipllFrefdivmMaxFreq > 1 then src / vsipllFrefdivmMaxFreq else 1) =
      max 1 (src / 40000000) := by
  unfold vsipllFrefdivmMaxFreq
  split_ifs <;> omega

theorem highest_reference (src : Nat) :
    (if src / vsipllFrefdivmMinFreq0 < 63 then src / vsipllFrefdivmMinFreq0 else 63) =
      min 63 (src / 1000000) := by
  unfold vsipllFrefdivmMinFreq0
  split_ifs <;> omega

theorem clkCalPllFreqMode0_found (inside : ¬(freq < 85700000 ∨ freq > 2400000000))
    (first : t ∈ (pllCandidates src).argmin (PllTriple.wholeDist src freq)) :
    clkCalPllFreqMode0 src freq = pure ⟨src * t.n / (t.p * t.m),
      BitVec.ofNat 32 (t.m <<< 12 ||| t.n), BitVec.ofNat 32 (t.p <<< 4), 0⟩ := by
  obtain ⟨hm, hn, hp⟩ := mem_pllCandidates.mp (List.argmin_mem first)
  have divisor : t.p * t.m ≤ 7 * t.m := Nat.mul_le_mul_right _ (by omega)
  have some : 0 < t.p * t.m := Nat.mul_pos hp.1 (by omega)
  have product : src * t.n ≤ src * 2047 := Nat.mul_le_mul_left _ (by omega)
  have bits0 : t.m <<< 12 ||| t.n < 2 ^ 32 := by
    rw [← Nat.shiftLeft_add_eq_or_of_lt (by omega), Nat.shiftLeft_eq]
    omega
  unfold clkCalPllFreqMode0
  refine (if_neg inside).trans ?_
  rw [fit_of_lt (by unfold vsipllFrefdivmMaxFreq; omega), pure_bind]
  dsimp only
  rw [lowest_reference, highest_reference, calPllFreqMode0_search src (by omega),
    pure_bind, Option.mem_def.mp first]
  unfold PllBest.ofFirst
  dsimp only
  rw [fit_of_lt bits0, pure_bind, fit_of_lt (by rw [Nat.shiftLeft_eq]; omega), pure_bind,
    fit_of_lt (by omega), pure_bind, fit_of_lt (by omega), pure_bind, quot_of_pos some, pure_bind]

end Search

section Crystal

variable {freq m : Nat} {t : PllTriple}

theorem hxt_div_bounds (low : 1 ≤ m) (high : m ≤ 24) :
    1000000 ≤ pllHxt / m ∧ pllHxt / m ≤ 24000000 ∧ 600000000 % (pllHxt / m) ≤ 100000 := by
  interval_cases m <;> decide

theorem mem_pllTriples : t ∈ pllTriples ↔ (1 ≤ t.m ∧ t.m ≤ 24) ∧
    (max 16 (600000000 / (pllHxt / t.m)) ≤ t.n ∧ t.n ≤ min 2047 (2400000000 / (pllHxt / t.m))) ∧
      1 ≤ t.p ∧ t.p ≤ 7 := by
  unfold pllTriples
  simp only [List.mem_flatMap, List.mem_map, List.mem_range'_1]
  constructor
  · rintro ⟨m, hm, n, hn, p, hp, rfl⟩
    dsimp only
    omega
  · rintro ⟨hm, hn, hp⟩
    exact ⟨t.m, by omega, t.n, by omega, t.p, by omega, rfl⟩

theorem pllCandidates_hxt : pllCandidates pllHxt = pllTriples := by
  unfold pllCandidates pllTriples
  have low : max 1 (pllHxt / 40000000) = 1 := rfl
  have high : min 63 (pllHxt / 1000000) = 24 := rfl
  dsimp only
  rw [low, high]
  refine List.flatMap_congr fun m here => List.flatMap_congr fun n there => ?_
  rw [List.mem_range'_1] at here there
  obtain ⟨least, most, rest⟩ := hxt_div_bounds here.1 (by omega)
  have split := Nat.div_add_mod 600000000 (pllHxt / m)
  have up : pllHxt / m * (600000000 / (pllHxt / m)) ≤ pllHxt / m * n :=
    Nat.mul_le_mul_left _ ((le_max_right _ _).trans there.1)
  rw [show min 7 (pllHxt / m * n / 85700000) = 7 by omega]

theorem exists_pllTriples (freq : Nat) :
    ∃ t, t ∈ pllTriples.argmin (PllTriple.dist freq) := by
  cases found : pllTriples.argmin (PllTriple.dist freq) with
  | none =>
    have some : (⟨1, 25, 1⟩ : PllTriple) ∈ pllTriples := mem_pllTriples.mpr (by decide)
    rw [List.argmin_eq_none.mp found] at some
    cases some
  | some t => exact ⟨t, rfl⟩

end Crystal

end NuMakerMA35
