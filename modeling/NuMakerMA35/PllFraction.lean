import NuMakerMA35.Pll
import Mathlib.Tactic.Ring

namespace NuMakerMA35

open Checked

def pllFclko (freq : Nat) : Nat :=
  if freq < 85700000 then freq * (85700000 / freq + 1) else freq

def pllVco (freq : Nat) : Nat := pllFclko freq * ((600000000 + pllFclko freq - 1) / pllFclko freq)

/-- The least divider that brings the source down to 40 MHz, in whole hertz. -/
def pllDivider (src : Nat) : Nat := src / 40000001 + 1

def pllThousandths (src freq : Nat) : Nat := pllVco freq * pllDivider src * 1000 / src

section Fractional

variable {src freq fclko m p x tmp : Nat} {l : List Nat}

theorem pllWord1 (small : p < 8) : p <<< 4 ||| x <<< 8 = x * 256 + p * 16 := by
  rw [Nat.or_comm, ← Nat.shiftLeft_add_eq_or_of_lt (by rw [Nat.shiftLeft_eq]; omega),
    Nat.shiftLeft_eq, Nat.shiftLeft_eq]

theorem pllFclkoMode1_eq (small : ∀ i ∈ l, i * freq < 2 ^ 64) :
    pllFclkoMode1 freq l =
      pure ((l.find? fun i => decide (i * freq > vsipllFclkoMinFreq)).elim 0 (· * freq)) := by
  induction l with
  | nil => rfl
  | cons i l ih =>
    rw [pllFclkoMode1, fit_of_lt (small i List.mem_cons_self), pure_bind, List.find?_cons]
    by_cases enough : i * freq > vsipllFclkoMinFreq
    · rw [if_pos enough, decide_eq_true enough]
      rfl
    · rw [if_neg enough, decide_eq_false enough]
      exact ih fun j here => small j (List.mem_cons_of_mem _ here)

theorem pllFindP_eq (small : ∀ i ∈ l, i * fclko < 2 ^ 64) :
    pllFindP fclko l = pure ((l.find? fun i => decide
      (i * fclko ≤ vsipllFclkoMaxFreq ∧ i * fclko ≥ vsipllFclkMinFreq)).getD 0) := by
  induction l with
  | nil => rfl
  | cons i l ih =>
    rw [pllFindP, fit_of_lt (small i List.mem_cons_self), pure_bind, List.find?_cons]
    by_cases inside : i * fclko ≤ vsipllFclkoMaxFreq ∧ i * fclko ≥ vsipllFclkMinFreq
    · rw [if_pos inside, decide_eq_true inside]
      rfl
    · rw [if_neg inside, decide_eq_false inside]
      exact ih fun j here => small j (List.mem_cons_of_mem _ here)

theorem least_multiple {i limit : Nat} (beyond : limit < i * freq) (before : (i - 1) * freq ≤ limit)
    (some : 0 < freq) : i = limit / freq + 1 := by
  have positive : 0 < i := by
    by_contra none
    rw [show i = 0 by omega, Nat.zero_mul] at beyond
    omega
  have quotient : limit / freq = i - 1 := by
    rw [Nat.div_eq_iff some]
    rw [show i = i - 1 + 1 by omega, Nat.succ_mul] at beyond
    omega
  omega

theorem pllFclko_found (low : freq < 85700000) :
    pllFclkoMode1 freq (List.range' 2 98) = pure 0 ∨
      pllFclkoMode1 freq (List.range' 2 98) = pure (pllFclko freq) ∧ pllFclko freq < 171400000 := by
  have room : ∀ i ∈ List.range' 2 98, i * freq < 2 ^ 64 := by
    intro i here
    rw [List.mem_range'_1] at here
    have : i * freq ≤ 99 * 85700000 := Nat.mul_le_mul (by omega) low.le
    omega
  rw [pllFclkoMode1_eq room]
  cases first : (List.range' 2 98).find? fun i => decide (i * freq > vsipllFclkoMinFreq) with
  | none => exact Or.inl rfl
  | some i =>
    obtain ⟨enough, inside, least⟩ := List.find?_range'_eq_some.mp first
    rw [List.mem_range'_1] at inside
    have beyond : 85700000 < i * freq := of_decide_eq_true enough
    have before : (i - 1) * freq ≤ 85700000 := by
      by_cases second : i = 2
      · rw [second]
        omega
      · have here := least (i - 1) (by omega) (by omega)
        rw [Bool.not_eq_true', decide_eq_false_iff_not] at here
        exact Nat.le_of_not_lt here
    have some : 0 < freq := by
      by_contra none
      rw [show freq = 0 by omega] at beyond
      omega
    have value : pllFclko freq = i * freq := by
      unfold pllFclko
      rw [if_pos low, ← least_multiple beyond before some, Nat.mul_comm]
    refine Or.inr ⟨by rw [value]; rfl, ?_⟩
    have step : i * freq = (i - 1) * freq + freq := by
      rw [← Nat.succ_mul]
      congr 1
      omega
    omega

theorem pllP_found (some : 0 < fclko) (high : fclko < 2400000000) :
    pllFindP fclko (List.range' 1 7) = pure 0 ∨
      ∃ p, 1 ≤ p ∧ p ≤ 7 ∧ pllFindP fclko (List.range' 1 7) = pure p ∧
        p = (600000000 + fclko - 1) / fclko ∧ 600000000 ≤ fclko * p ∧ fclko * p ≤ 2400000000 := by
  have room : ∀ i ∈ List.range' 1 7, i * fclko < 2 ^ 64 := by
    intro i here
    rw [List.mem_range'_1] at here
    have : i * fclko ≤ 7 * 2400000000 := Nat.mul_le_mul (by omega) high.le
    omega
  rw [pllFindP_eq room]
  cases first : (List.range' 1 7).find? fun i => decide
      (i * fclko ≤ vsipllFclkoMaxFreq ∧ i * fclko ≥ vsipllFclkMinFreq) with
  | none => exact Or.inl rfl
  | some p =>
    obtain ⟨enough, inside, least⟩ := List.find?_range'_eq_some.mp first
    rw [List.mem_range'_1] at inside
    obtain ⟨below, above⟩ : p * fclko ≤ 2400000000 ∧ p * fclko ≥ 600000000 := of_decide_eq_true enough
    have step : p * fclko = (p - 1) * fclko + fclko := by
      rw [← Nat.succ_mul]
      congr 1
      omega
    have before : (p - 1) * fclko < 600000000 := by
      by_cases one : p = 1
      · rw [one]
        omega
      · have here := least (p - 1) (by omega) (by omega)
        rw [Bool.not_eq_true', decide_eq_false_iff_not] at here
        by_contra large
        exact here ⟨by unfold vsipllFclkoMaxFreq; omega, by unfold vsipllFclkMinFreq; omega⟩
    refine Or.inr ⟨p, by omega, by omega, rfl, ?_, by rwa [Nat.mul_comm], by rwa [Nat.mul_comm]⟩
    symm
    rw [Nat.div_eq_iff some]
    omega

theorem pllFindM_eq (some : ∀ i ∈ l, 0 < i) :
    pllFindM src l = pure ((l.find? fun i => decide
      (src / i ≤ vsipllFrefdivmMaxFreq ∧ src / i ≥ vsipllFrefdivmMinFreq1)).getD 0) := by
  induction l with
  | nil => rfl
  | cons i l ih =>
    rw [pllFindM, quot_of_pos (some i List.mem_cons_self), pure_bind, List.find?_cons]
    by_cases inside : src / i ≤ vsipllFrefdivmMaxFreq ∧ src / i ≥ vsipllFrefdivmMinFreq1
    · rw [if_pos inside, decide_eq_true inside]
      rfl
    · rw [if_neg inside, decide_eq_false inside]
      exact ih fun j here => some j (List.mem_cons_of_mem _ here)

theorem pllFindM_range :
    pllFindM src (List.range' 1 63) = pure (((List.range' 1 63).find? fun i => decide
      (src / i ≤ 40000000 ∧ src / i ≥ 10000000)).getD 0) := by
  apply pllFindM_eq
  intro i here
  rw [List.mem_range'_1] at here
  omega

theorem pllM_none (low : src < 10000000) : pllFindM src (List.range' 1 63) = pure 0 := by
  have unfound : (List.range' 1 63).find? (fun i => decide
      (src / i ≤ 40000000 ∧ src / i ≥ 10000000)) = none := by
    rw [List.find?_eq_none]
    intro i _ inside
    have := Nat.div_le_self src i
    have := (of_decide_eq_true inside).2
    omega
  rw [pllFindM_range, unfound]
  rfl

theorem pllDivider_bounds (low : 10000000 ≤ src) (high : src ≤ 200000000) :
    1 ≤ pllDivider src ∧ pllDivider src ≤ 5 ∧ 10000000 * pllDivider src ≤ src ∧
      src < 40000001 * pllDivider src := by
  unfold pllDivider
  omega

theorem pllM_found (low : 10000000 ≤ src) (high : src ≤ 200000000) :
    pllFindM src (List.range' 1 63) = pure (pllDivider src) := by
  obtain ⟨some, small, least, most⟩ := pllDivider_bounds low high
  have found : (List.range' 1 63).find? (fun i => decide
      (src / i ≤ 40000000 ∧ src / i ≥ 10000000)) = Option.some (pllDivider src) := by
    rw [List.find?_range'_eq_some, List.mem_range'_1]
    refine ⟨decide_eq_true ⟨?_, ?_⟩, ⟨some, by omega⟩, fun i first less => ?_⟩
    · rw [← Nat.lt_succ_iff, Nat.div_lt_iff_lt_mul some]
      exact most
    · rw [ge_iff_le, Nat.le_div_iff_mul_le some]
      exact least
    · have large : 40000001 * i ≤ src := by
        unfold pllDivider at less
        omega
      rw [Nat.mul_comm] at large
      have above : ¬src / i ≤ 40000000 := by
        rw [← Nat.lt_succ_iff, Nat.div_lt_iff_lt_mul first, Nat.mul_comm]
        omega
      rw [decide_eq_false fun inside => above inside.1]
      rfl
  rw [pllFindM_range, found]
  rfl

def pllFrac (tmp : Nat) : Nat := (tmp % 1000 * 2 ^ 24 + 500) / 1000

theorem pllFrac_lt (tmp : Nat) : pllFrac tmp < 2 ^ 24 := by
  have := Nat.mod_lt tmp (show 0 < 1000 by decide)
  unfold pllFrac
  omega

theorem pllFraction_eq (low : 10000000 * m ≤ src) (high : src ≤ 200000000) (mSome : 1 ≤ m)
    (mSmall : m ≤ 5) (pSome : 1 ≤ p) (pSmall : p ≤ 7) (vco : fclko * p ≤ 2400000000)
    (value : tmp = fclko * p * m * 1000 / src) :
    tmp ≤ 240000 ∧ pllFraction src fclko p m = pure ⟨tmp, tmp / 1000,
      p <<< 4 ||| pllFrac tmp <<< 8, src * tmp / p / m / 1000⟩ := by
  have scaled : fclko * p * m ≤ 2400000000 * m := Nat.mul_le_mul_right m vco
  have bound : tmp ≤ 240000 := by
    rw [value]
    refine Nat.div_le_of_le_mul ?_
    omega
  have product : src * tmp ≤ 200000000 * 240000 := Nat.mul_le_mul high bound
  have digits := Nat.mod_lt tmp (show 0 < 1000 by decide)
  have small := pllFrac_lt tmp
  refine ⟨bound, ?_⟩
  unfold pllFraction
  rw [fit_of_lt (by omega), pure_bind, quot_of_pos (by omega), pure_bind, ← value]
  dsimp only
  rw [Nat.shiftLeft_eq, fit_of_lt (by omega), pure_bind]
  change (fit 32 (pllFrac tmp) >>= _) = _
  rw [fit_of_lt (by omega), pure_bind, fit_of_lt (by rw [Nat.shiftLeft_eq]; omega), pure_bind,
    fit_of_lt (by rw [pllWord1 (by omega)]; omega), pure_bind, fit_of_lt (by omega), pure_bind,
    quot_of_pos (by omega), pure_bind, quot_of_pos (by omega), pure_bind]

theorem pllFclko_start (high : freq < 2400000000) :
    (if freq < vsipllFclkoMinFreq then pllFclkoMode1 freq (List.range' 2 98)
        else pure freq) = pure 0 ∨
      (if freq < vsipllFclkoMinFreq then pllFclkoMode1 freq (List.range' 2 98)
        else pure freq) = pure (pllFclko freq) ∧ pllFclko freq < 2400000000 := by
  split_ifs with low
  · rcases pllFclko_found low with none | ⟨found, small⟩
    · exact Or.inl none
    · exact Or.inr ⟨found, by omega⟩
  · have same : pllFclko freq = freq := if_neg low
    exact Or.inr ⟨by rw [same], by omega⟩

theorem clkCalPllFreqMode1_eq (src : Nat) (high : freq < 2400000000) :
    clkCalPllFreqMode1 src freq = pure pllNone ∨
      (10000000 ≤ src ∧ src ≤ 200000000) ∧ (600000000 ≤ pllVco freq ∧ pllVco freq ≤ 2400000000) ∧
        pllThousandths src freq ≤ 240000 ∧ ∃ p, 1 ≤ p ∧ p ≤ 7 ∧ pllVco freq = pllFclko freq * p ∧
          clkCalPllFreqMode1 src freq = pure ⟨
            src * pllThousandths src freq / p / pllDivider src / 1000,
            BitVec.ofNat 32 (pllDivider src <<< 12 ||| pllThousandths src freq / 1000),
            BitVec.ofNat 32 (p <<< 4 ||| pllFrac (pllThousandths src freq) <<< 8), 0⟩ := by
  by_cases out : src > vsipllFrefMaxFreq ∨ src < vsipllFrefMinFreq
  · exact Or.inl (if_pos out)
  · have top : src ≤ 200000000 := Nat.le_of_not_lt fun large => out (Or.inl large)
    have step (fclko : Nat) (found : (if freq < vsipllFclkoMinFreq
        then pllFclkoMode1 freq (List.range' 2 98) else pure freq) = pure fclko) :
        clkCalPllFreqMode1 src freq = if fclko = 0 then pure pllNone else (do
          let p ← pllFindP fclko (List.range' 1 7)
          if p = 0 then pure pllNone
          else do
            let m ← pllFindM src (List.range' 1 63)
            if m = 0 then pure pllNone
            else do
              let q ← pllFraction src fclko p m
              let reg0 ← fit 32 (m <<< 12 ||| q.n)
              pure ⟨q.clk, BitVec.ofNat 32 reg0, BitVec.ofNat 32 q.reg1, 0⟩) := by
      unfold clkCalPllFreqMode1
      rw [if_neg out, if_neg (by unfold vsipllFclkoMaxFreq; omega), found, pure_bind]
    rcases pllFclko_start high with none | ⟨found, small⟩
    · exact Or.inl ((step 0 none).trans (if_pos rfl))
    · rw [step _ found]
      split_ifs with zero
      · exact Or.inl rfl
      · rcases pllP_found (Nat.pos_of_ne_zero zero) small with
          none | ⟨p, pSome, pSmall, hp, value, least, most⟩
        · rw [none, pure_bind]
          exact Or.inl rfl
        · rw [hp, pure_bind, if_neg (by omega)]
          by_cases low : src < 10000000
          · rw [pllM_none low, pure_bind]
            exact Or.inl rfl
          · have rate : pllVco freq = pllFclko freq * p := by
              unfold pllVco
              rw [← value]
            obtain ⟨mSome, mSmall, bottom, -⟩ := pllDivider_bounds (Nat.le_of_not_lt low) top
            obtain ⟨bound, found⟩ := pllFraction_eq bottom top mSome mSmall pSome pSmall most
              (show pllThousandths src freq = _ by unfold pllThousandths; rw [rate])
            have bits : pllThousandths src freq / 1000 < 2 ^ 12 := by omega
            refine Or.inr ⟨⟨Nat.le_of_not_lt low, top⟩, by rw [rate]; exact ⟨least, most⟩, bound, p,
              pSome, pSmall, rate, ?_⟩
            rw [pllM_found (Nat.le_of_not_lt low) top, pure_bind, if_neg (by omega), found,
              pure_bind]
            dsimp only
            rw [fit_of_lt (by rw [← Nat.shiftLeft_add_eq_or_of_lt bits, Nat.shiftLeft_eq]; omega),
              pure_bind]

/-- The modulation frequency is passed as the rate, and the other way round. -/
theorem clkCalPllFreqMode2_lost (src : Nat) (high : freq < 2400000000)
    (some : (clkCalPllFreqMode2 src freq 50000 194).val.clk ≠ 0) :
    (clkCalPllFreqMode2 src freq 50000 194).ok = false := by
  by_cases out : src > vsipllFrefMaxFreq ∨ src < vsipllFrefMinFreq
  · have none : clkCalPllFreqMode2 src freq 50000 194 = pure pllNone := if_pos out
    rw [none] at some
    exact absurd rfl some
  revert some
  unfold clkCalPllFreqMode2
  rw [if_neg out, if_neg (show ¬freq ≥ vsipllFclkoMaxFreq from Nat.not_le.mpr high)]
  have top : src ≤ 200000000 := Nat.le_of_not_lt fun large => out (Or.inl large)
  generalize (if freq < vsipllFclkoMinFreq then pllFclkoMode2 freq 0 (List.range' 2 6)
    else pure freq) = fclko
  intro some
  refine bind_lost ?_
  rw [bind_def] at some
  dsimp only at some
  split_ifs at some ⊢ with zero
  · exact absurd rfl some
  · refine bind_lost ?_
    rw [bind_def] at some
    dsimp only at some
    split_ifs at some ⊢ with zero
    · exact absurd rfl some
    · by_cases low : src < 10000000
      · rw [pllM_none low, pure_bind] at some
        exact absurd rfl some
      · rw [pllM_found (Nat.le_of_not_lt low) top, pure_bind,
          if_neg (by unfold pllDivider; omega)]
        have rate : (src >>> 1 / 388 + 2 ^ 64 - 1) % 2 ^ 64 = src / 776 - 1 := by
          rw [Nat.shiftRight_eq_div_pow]
          omega
        refine bind_lost (bind_lost (bind_lost (bind_lost (bind_lost (bind_lost (bind_lost
          (bind_lost ?_)))))))
        refine fit_lost (le_trans ?_ (Nat.left_le_or.trans Nat.left_le_or))
        change 2 ^ 32 ≤ ((src >>> 1 / 388 + 2 ^ 64 - 1) % 2 ^ 64) <<< 20 % 2 ^ 64
        rw [rate, Nat.shiftLeft_eq]
        omega

end Fractional

end NuMakerMA35
