import NuMakerMA35.PllSetting

namespace NuMakerMA35

open Checked

/-- Where modes 1 and 2 start from: the request, or one of its multiples above the lower limit. -/
def pllStart (mode : U32) (freq : Nat) : Nat :=
  if 85700000 ≤ freq then freq
  else if mode = pllOpmodeFractional then (if freq ≤ 865656 then 0 else pllFclko freq)
  else 7 * freq

def PllUnsettable (mode : U32) (src freq : Nat) : Prop :=
  if mode = pllOpmodeInteger then
    (85700000 ≤ freq ∧ freq ≤ 2400000000) ∧ (src < 1000000 ∨ 2560000000 ≤ src)
  else if mode = pllOpmodeFractional ∨ mode = pllOpmodeSpreadSpectrum then
    src < 1000000 ∨ 200000000 < src ∨
      freq < 2400000000 ∧ (src < 10000000 ∨ 7 * pllStart mode freq < 600000000)
  else False

/-- The PLL is up, with the mode and with zeros in all other fields that a setting replaces. -/
def PllRegs.Cleared (mode : U32) (r : PllRegs) : Prop :=
  r.ctl0 &&& pllCtl0Fields mode = mode <<< pllCtl0ModePos ∧
    r.ctl1 &&& (if mode = pllOpmodeInteger then pllCtl1PdMsk ||| pllCtl1OutdivMsk
      else pllCtl1Fields) = 0 ∧
    (mode = pllOpmodeSpreadSpectrum → r.ctl2 = 0)

/-- Where the setter returns zero no register has changed, and no quotient of the getter fails that
did not before. -/
def PllFailureLaw (clk : NuClk) (idx : ClkPll) (mode : U32) (src freq : BitVec 64) : Prop :=
  let set := clkSetPllFreq clk idx mode src freq
  set.val.2 = 0 → set.val.1 = clk ∧
    ((clkGetPllClockFreq clk idx).ok = true → (clkGetPllClockFreq set.val.1 idx).ok = true)

/-- The request has a setting, or the registers are those of none already. -/
def PllFailureKept (clk : NuClk) (mode : U32) (src freq : BitVec 64) : ClkPll → Prop
  | .vsi pll => PllUnsettable mode src.toNat freq.toNat → (clk.pll pll).Cleared mode
  | _ => True

section Starts

variable {freq fclko : Nat}

theorem pllFclkoMode1_none_iff (low : freq < 85700000) :
    pllFclkoMode1 freq (List.range' 2 98) = pure 0 ↔ freq ≤ 865656 := by
  have room : ∀ i ∈ List.range' 2 98, i * freq < 2 ^ 64 := by
    intro i here
    rw [List.mem_range'_1] at here
    have : i * freq ≤ 99 * 85700000 := Nat.mul_le_mul (by omega) low.le
    omega
  rw [pllFclkoMode1_eq room]
  constructor
  · intro none
    by_contra large
    cases first : (List.range' 2 98).find? fun i => decide (i * freq > vsipllFclkoMinFreq) with
    | none =>
      have here := List.find?_eq_none.mp first 99 (by rw [List.mem_range'_1]; omega)
      unfold vsipllFclkoMinFreq at here
      exact here (decide_eq_true (by omega))
    | some i =>
      have enough : 85700000 < i * freq := by
        have here := List.find?_some first
        exact of_decide_eq_true here
      rw [first] at none
      have zero : i * freq = 0 := congrArg Checked.val none
      omega
  · intro small
    have unfound : (List.range' 2 98).find? (fun i => decide (i * freq > vsipllFclkoMinFreq)) =
        none := by
      rw [List.find?_eq_none]
      intro i here more
      rw [List.mem_range'_1] at here
      have most : i * freq ≤ 99 * 865656 := Nat.mul_le_mul (by omega) small
      have enough : 85700000 < i * freq := of_decide_eq_true more
      omega
    rw [unfound]
    rfl

theorem pllFclkoMode2_eq (low : freq < 85700000) :
    pllFclkoMode2 freq 0 (List.range' 2 6) =
      pure (if 7 * freq > vsipllFclkoMinFreq then 7 * freq else 0) := by
  have limit : vsipllFclkoMinFreq = 85700000 := rfl
  change pllFclkoMode2 freq 0 [2, 3, 4, 5, 6, 7] = _
  simp only [pllFclkoMode2]
  rw [fit_of_lt (by omega), pure_bind, fit_of_lt (by omega), pure_bind, fit_of_lt (by omega),
    pure_bind, fit_of_lt (by omega), pure_bind, fit_of_lt (by omega), pure_bind,
    fit_of_lt (by omega), pure_bind]
  by_cases enough : 7 * freq > vsipllFclkoMinFreq
  · rw [if_pos enough, if_pos enough]
  · rw [if_neg enough, if_neg enough, if_neg (by omega), if_neg (by omega), if_neg (by omega),
      if_neg (by omega), if_neg (by omega)]

theorem pllFindP_none_iff (some : 0 < fclko) (high : fclko < 2400000000) :
    pllFindP fclko (List.range' 1 7) = pure 0 ↔ 7 * fclko < 600000000 := by
  have room : ∀ i ∈ List.range' 1 7, i * fclko < 2 ^ 64 := by
    intro i here
    rw [List.mem_range'_1] at here
    have : i * fclko ≤ 7 * 2400000000 := Nat.mul_le_mul (by omega) high.le
    omega
  rw [pllFindP_eq room]
  cases first : (List.range' 1 7).find? fun i => decide
      (i * fclko ≤ vsipllFclkoMaxFreq ∧ i * fclko ≥ vsipllFclkMinFreq) with
  | none =>
    refine iff_of_true rfl ?_
    have out (i : Nat) (inside : 1 ≤ i ∧ i < 8) : ¬(i * fclko ≤ 2400000000 ∧
        i * fclko ≥ 600000000) := by
      have here := List.find?_eq_none.mp first i (List.mem_range'_1.mpr inside)
      exact fun both => here (decide_eq_true both)
    -- each multiple is below the range as the one before is below its half
    have := out 1 (by omega)
    have := out 2 (by omega)
    have := out 3 (by omega)
    have := out 4 (by omega)
    have := out 5 (by omega)
    have := out 6 (by omega)
    have := out 7 (by omega)
    omega
  | some p =>
    obtain ⟨enough, inside, -⟩ := List.find?_range'_eq_some.mp first
    rw [List.mem_range'_1] at inside
    obtain ⟨-, above⟩ : p * fclko ≤ 2400000000 ∧ p * fclko ≥ 600000000 := of_decide_eq_true enough
    refine iff_of_false (fun zero => ?_) ?_
    · have : p = 0 := congrArg Checked.val zero
      omega
    · have : p * fclko ≤ 7 * fclko := Nat.mul_le_mul_right fclko (by omega)
      omega

end Starts

section Solutions

variable {src freq fclko : Nat} {k : Nat → PllFraction → Checked PllCalc}

/-- What modes 1 and 2 do alike once they have a start. -/
def pllSolve (src fclko : Nat) (k : Nat → PllFraction → Checked PllCalc) : Checked PllCalc :=
  if fclko = 0 then pure pllNone
  else do
    let p ← pllFindP fclko (List.range' 1 7)
    if p = 0 then pure pllNone
    else do
      let m ← pllFindM src (List.range' 1 63)
      if m = 0 then pure pllNone
      else do
        let q ← pllFraction src fclko p m
        k m q

theorem clkCalPllFreqMode1_solve (inside : ¬(src > vsipllFrefMaxFreq ∨ src < vsipllFrefMinFreq))
    (high : ¬freq ≥ vsipllFclkoMaxFreq) : clkCalPllFreqMode1 src freq =
      ((if freq < vsipllFclkoMinFreq then pllFclkoMode1 freq (List.range' 2 98) else pure freq) >>=
        fun fclko => pllSolve src fclko fun m q => do
          let reg0 ← fit 32 (m <<< 12 ||| q.n)
          pure ⟨q.clk, BitVec.ofNat 32 reg0, BitVec.ofNat 32 q.reg1, 0⟩) :=
  (if_neg inside).trans (if_neg high)

theorem pllSolve_cases (high : fclko < 2400000000) (top : src ≤ 200000000)
    (clock : ∀ m q, (k m q).val.clk = q.clk) :
    (src < 10000000 ∨ 7 * fclko < 600000000) ∧ pllSolve src fclko k = pure pllNone ∨
      ¬(src < 10000000 ∨ 7 * fclko < 600000000) ∧ (pllSolve src fclko k).val.clk ≠ 0 := by
  unfold pllSolve
  by_cases zero : fclko = 0
  · exact Or.inl ⟨by omega, if_pos zero⟩
  rw [if_neg zero]
  have positive := Nat.pos_of_ne_zero zero
  by_cases small : 7 * fclko < 600000000
  · rw [(pllFindP_none_iff positive high).mpr small]
    exact Or.inl ⟨Or.inr small, rfl⟩
  rcases pllP_found positive high with none | ⟨p, pSome, pSmall, found, -, least, most⟩
  · exact absurd ((pllFindP_none_iff positive high).mp none) small
  rw [found, pure_bind, if_neg (by omega)]
  by_cases low : src < 10000000
  · rw [pllM_none low]
    exact Or.inl ⟨Or.inl low, rfl⟩
  obtain ⟨mSome, mSmall, bottom, -⟩ := pllDivider_bounds (Nat.le_of_not_lt low) top
  rw [pllM_found (Nat.le_of_not_lt low) top, pure_bind, if_neg (by omega)]
  obtain ⟨-, value⟩ := pllFraction_eq bottom top mSome mSmall pSome pSmall most rfl
  have product : src ≤ fclko * p * pllDivider src * 1000 := by
    have : fclko * p * 1 ≤ fclko * p * pllDivider src := Nat.mul_le_mul_left _ mSome
    omega
  have some : 1 ≤ fclko * p * pllDivider src * 1000 / src := by
    rw [Nat.le_div_iff_mul_le (by omega), Nat.one_mul]
    exact product
  have factors : p * pllDivider src ≤ 7 * 5 := Nat.mul_le_mul pSmall mSmall
  have clocks : src * 1 ≤ src * (fclko * p * pllDivider src * 1000 / src) :=
    Nat.mul_le_mul_left src some
  have divisors : 0 < p * pllDivider src := Nat.mul_pos pSome mSome
  refine Or.inr ⟨not_or.mpr ⟨low, small⟩, ?_⟩
  rw [value, pure_bind, clock]
  change src * _ / p / pllDivider src / 1000 ≠ 0
  rw [Nat.div_div_eq_div_mul, Nat.div_div_eq_div_mul, ← Nat.mul_assoc]
  exact (Nat.div_pos (by omega) (by omega)).ne'

theorem pllStart_fractional (high : freq < 2400000000) :
    (if freq < vsipllFclkoMinFreq then pllFclkoMode1 freq (List.range' 2 98) else pure freq) =
      pure (pllStart pllOpmodeFractional freq) ∧ pllStart pllOpmodeFractional freq < 2400000000 := by
  unfold pllStart
  by_cases low : freq < 85700000
  · rw [if_neg (Nat.not_le.mpr low), if_pos rfl, if_pos (show freq < vsipllFclkoMinFreq from low)]
    by_cases small : freq ≤ 865656
    · rw [if_pos small]
      exact ⟨(pllFclkoMode1_none_iff low).mpr small, by decide⟩
    · rw [if_neg small]
      rcases pllFclko_found low with none | ⟨found, bound⟩
      · exact absurd ((pllFclkoMode1_none_iff low).mp none) small
      · exact ⟨found, by omega⟩
  · rw [if_pos (Nat.le_of_not_lt low), if_neg (show ¬freq < vsipllFclkoMinFreq from low)]
    exact ⟨rfl, high⟩

theorem pllStart_spread (high : freq < 2400000000) :
    ∃ fclko, (if freq < vsipllFclkoMinFreq then pllFclkoMode2 freq 0 (List.range' 2 6)
        else pure freq) = pure fclko ∧ fclko < 2400000000 ∧
      (7 * fclko < 600000000 ↔ 7 * pllStart pllOpmodeSpreadSpectrum freq < 600000000) := by
  unfold pllStart
  by_cases low : freq < 85700000
  · have limit : vsipllFclkoMinFreq = 85700000 := rfl
    rw [if_neg (Nat.not_le.mpr low),
      if_neg (show ¬pllOpmodeSpreadSpectrum = pllOpmodeFractional by decide),
      if_pos (show freq < vsipllFclkoMinFreq from low), pllFclkoMode2_eq low]
    refine ⟨_, rfl, ?_, ?_⟩ <;> split_ifs <;> omega
  · rw [if_pos (Nat.le_of_not_lt low), if_neg (show ¬freq < vsipllFclkoMinFreq from low)]
    exact ⟨freq, rfl, high, Iff.rfl⟩

variable {mode : U32} {c : PllCalc}

theorem pllUnsettable_iff (kind : mode = pllOpmodeFractional ∨ mode = pllOpmodeSpreadSpectrum)
    (least : 1000000 ≤ src) (top : src ≤ 200000000) (high : freq < 2400000000) :
    PllUnsettable mode src freq ↔ src < 10000000 ∨ 7 * pllStart mode freq < 600000000 := by
  have other : mode ≠ pllOpmodeInteger := by
    rcases kind with rfl | rfl <;> decide
  unfold PllUnsettable
  rw [if_neg other, if_pos kind]
  omega

theorem pllUnsettable_early (kind : mode = pllOpmodeFractional ∨ mode = pllOpmodeSpreadSpectrum)
    (early : c = if src > vsipllFrefMaxFreq ∨ src < vsipllFrefMinFreq then pllNone
      else ⟨1000000000, 0x30fa, 0x2 <<< 4, 0⟩)
    (ends : (src > vsipllFrefMaxFreq ∨ src < vsipllFrefMinFreq) ∨ freq ≥ vsipllFclkoMaxFreq) :
    PllUnsettable mode src freq ∧ c = pllNone ∨ ¬PllUnsettable mode src freq ∧ c.clk ≠ 0 := by
  have other : mode ≠ pllOpmodeInteger := by
    rcases kind with rfl | rfl <;> decide
  unfold PllUnsettable
  rw [if_neg other, if_pos kind, early]
  unfold vsipllFclkoMaxFreq at ends
  unfold vsipllFrefMaxFreq vsipllFrefMinFreq at ends ⊢
  split_ifs with out
  · exact Or.inl ⟨by omega, rfl⟩
  · exact Or.inr ⟨by omega, by decide⟩

theorem clkCalPllFreqMode1_cases (src freq : Nat) :
    PllUnsettable pllOpmodeFractional src freq ∧ (clkCalPllFreqMode1 src freq).val = pllNone ∨
      ¬PllUnsettable pllOpmodeFractional src freq ∧ (clkCalPllFreqMode1 src freq).val.clk ≠ 0 := by
  by_cases out : src > vsipllFrefMaxFreq ∨ src < vsipllFrefMinFreq
  · refine pllUnsettable_early (Or.inl rfl) ?_ (Or.inl out)
    rw [if_pos out]
    exact congrArg Checked.val (if_pos out)
  by_cases high : freq ≥ vsipllFclkoMaxFreq
  · refine pllUnsettable_early (Or.inl rfl) ?_ (Or.inr high)
    rw [if_neg out]
    exact congrArg Checked.val ((if_neg out).trans (if_pos high))
  have below : freq < 2400000000 := Nat.lt_of_not_le high
  obtain ⟨top, least⟩ : src ≤ 200000000 ∧ 1000000 ≤ src := by
    unfold vsipllFrefMaxFreq vsipllFrefMinFreq at out
    omega
  obtain ⟨start, small⟩ := pllStart_fractional below
  rw [clkCalPllFreqMode1_solve out high, start, pure_bind, pllUnsettable_iff (Or.inl rfl) least top
    below]
  exact (pllSolve_cases small top fun _ _ => rfl).imp (And.imp_right (congrArg Checked.val)) id

theorem clkCalPllFreqMode2_cases (src freq : Nat) :
    PllUnsettable pllOpmodeSpreadSpectrum src freq ∧
        (clkCalPllFreqMode2 src freq 50000 194).val = pllNone ∨
      ¬PllUnsettable pllOpmodeSpreadSpectrum src freq ∧
        (clkCalPllFreqMode2 src freq 50000 194).val.clk ≠ 0 := by
  by_cases out : src > vsipllFrefMaxFreq ∨ src < vsipllFrefMinFreq
  · refine pllUnsettable_early (Or.inr rfl) ?_ (Or.inl out)
    rw [if_pos out]
    exact congrArg Checked.val (if_pos out)
  by_cases high : freq ≥ vsipllFclkoMaxFreq
  · refine pllUnsettable_early (Or.inr rfl) ?_ (Or.inr high)
    rw [if_neg out]
    exact congrArg Checked.val ((if_neg out).trans (if_pos high))
  have below : freq < 2400000000 := Nat.lt_of_not_le high
  obtain ⟨top, least⟩ : src ≤ 200000000 ∧ 1000000 ≤ src := by
    unfold vsipllFrefMaxFreq vsipllFrefMinFreq at out
    omega
  obtain ⟨fclko, start, small, same⟩ := pllStart_spread below
  have solved : clkCalPllFreqMode2 src freq 50000 194 = pllSolve src fclko (fun m q => do
      let twice ← fit 32 (194 * 2)
      let rate ← quot (src >>> 1) twice
      let ssrate ← less 64 rate 1
      let prod ← fit 64 (q.tmp * 50000)
      let steps ← quot prod ssrate
      let slope ← fit 64 (steps <<< 24)
      let high ← fit 64 (ssrate <<< 20)
      let reg0 ← fit 32 (high ||| m <<< 12 ||| q.n)
      let reg2 ← fit 32 (slope / 100 / 1000)
      pure ⟨q.clk, BitVec.ofNat 32 reg0, BitVec.ofNat 32 q.reg1, BitVec.ofNat 32 reg2⟩) := by
    unfold clkCalPllFreqMode2
    rw [if_neg out, if_neg high, start, pure_bind]
    rfl
  rw [solved, pllUnsettable_iff (Or.inr rfl) least top below, ← same]
  exact (pllSolve_cases small top fun _ _ => rfl).imp (And.imp_right (congrArg Checked.val)) id

end Solutions

section Integer

variable {src freq : Nat}

theorem exists_searched (least : 1000000 ≤ src) (most : src < 2560000000) :
    ∃ t : PllTriple, t.Searched src := by
  have inside : max 1 (src / 40000000) ≤ min 63 (src / 1000000) := by omega
  obtain ⟨m, low⟩ : ∃ m, m = max 1 (src / 40000000) := ⟨_, rfl⟩
  rw [← low] at inside
  have reference := reference_bounds low.ge inside
  have feedback : max 16 (600000000 / (src / m)) ≤ min 2047 (2400000000 / (src / m)) := by
    have small : 600000000 / (src / m) ≤ 600000000 / 1000000 :=
      Nat.div_le_div_left reference.1 (by omega)
    have large : 2400000000 / 80000000 ≤ 2400000000 / (src / m) :=
      Nat.div_le_div_left reference.2.le (by omega)
    have both : 600000000 / (src / m) ≤ 2400000000 / (src / m) := Nat.div_le_div_right (by omega)
    omega
  have vco := (vco_bounds reference le_rfl feedback).1
  exact ⟨⟨m, _, 1⟩, ⟨low.ge, inside⟩, ⟨le_rfl, feedback⟩, le_rfl, by dsimp only; omega⟩

theorem PllTriple.Searched.clock_ne_zero {t : PllTriple} (searched : t.Searched src) :
    src * t.n / (t.p * t.m) ≠ 0 := by
  obtain ⟨hm, hn, hp⟩ := searched
  have reference := reference_bounds hm.1 hm.2
  have vco := (vco_bounds reference hn.1 hn.2).1
  have whole : src / t.m * t.n ≤ src * t.n := Nat.mul_le_mul_right _ (Nat.div_le_self _ _)
  have divisor : t.p * t.m ≤ 7 * 63 := Nat.mul_le_mul (by omega) (by omega)
  have some : 0 < t.p * t.m := Nat.mul_pos hp.1 (by omega)
  exact (Nat.div_pos (by omega) some).ne'

theorem calPllFreqMode0M_none {m : Nat} (low : 1 ≤ m) (high : m ≤ 63)
    (large : 2 ^ 32 * 40000000 ≤ src) (s : PllBest) (unfound : s.found = false) :
    calPllFreqMode0M src freq s m = pure s := by
  have quotient : 2400000000 < src / m := by
    rw [Nat.lt_div_iff_mul_lt (by omega)]
    omega
  unfold calPllFreqMode0M
  rw [if_neg (by rw [unfound]; exact Bool.false_ne_true), quot_of_pos (by omega), pure_bind,
    quot_of_pos (by omega), pure_bind, quot_of_pos (by omega), pure_bind]
  unfold vsipllFclkMinFreq vsipllFclkMaxFreq
  rw [Nat.div_eq_of_lt (show 600000000 < src / m by omega), Nat.div_eq_of_lt quotient]
  rfl

theorem calPllFreqMode0_none (large : 2 ^ 32 * 40000000 ≤ src) {s : PllBest}
    (unfound : s.found = false) {l : List Nat} (inside : ∀ m ∈ l, 1 ≤ m ∧ m ≤ 63) :
    l.foldlM (calPllFreqMode0M src freq) s = pure s :=
  foldlM_of_pure (r := fun _ : Unit => s) (g := fun _ _ => ()) (fun _ m here =>
    calPllFreqMode0M_none (inside m here).1 (inside m here).2 large s unfound) ()

theorem clkCalPllFreqMode0_unset (inside : ¬(freq < 85700000 ∨ freq > 2400000000))
    (bad : src < 1000000 ∨ 2560000000 ≤ src) : (clkCalPllFreqMode0 src freq).val = pllNone := by
  unfold clkCalPllFreqMode0
  refine (congrArg Checked.val (if_neg inside)).trans ?_
  by_cases fits : src / vsipllFrefdivmMaxFreq < 2 ^ 32
  · have none : pllCandidates src = [] := by
      rw [List.eq_nil_iff_forall_not_mem]
      intro t here
      have := (mem_pllCandidates.mp here).m
      omega
    rw [fit_of_lt fits, pure_bind]
    dsimp only
    rw [lowest_reference, highest_reference, calPllFreqMode0_search src (by omega), pure_bind, none,
      List.argmin_nil]
    unfold PllBest.ofFirst
    dsimp only
    rw [Nat.mul_zero]
    rfl
  · have large : 2 ^ 32 * 40000000 ≤ src := by
      unfold vsipllFrefdivmMaxFreq at fits
      omega
    rw [bind_def]
    dsimp only
    rw [calPllFreqMode0_none large rfl ?_, pure_bind]
    · dsimp only
      rw [Nat.mul_zero]
      rfl
    · intro m here
      rw [List.mem_range'_1] at here
      split_ifs at here <;> omega

theorem clkCalPllFreqMode0_cases (src freq : Nat) :
    PllUnsettable pllOpmodeInteger src freq ∧ (clkCalPllFreqMode0 src freq).val = pllNone ∨
      ¬PllUnsettable pllOpmodeInteger src freq ∧ (clkCalPllFreqMode0 src freq).val.clk ≠ 0 := by
  unfold PllUnsettable
  rw [if_pos rfl]
  by_cases out : freq < 85700000 ∨ freq > 2400000000
  · have found : clkCalPllFreqMode0 src freq = pure ⟨1000000000, 0x307d, 0x10, 0⟩ := if_pos out
    rw [found]
    exact Or.inr ⟨by omega, by decide⟩
  by_cases bad : src < 1000000 ∨ 2560000000 ≤ src
  · exact Or.inl ⟨⟨by omega, bad⟩, clkCalPllFreqMode0_unset out bad⟩
  · obtain ⟨t, searched⟩ : ∃ t : PllTriple, t.Searched src := exists_searched (by omega) (by omega)
    have some : pllCandidates src ≠ [] := List.ne_nil_of_mem (mem_pllCandidates.mpr searched)
    have exists_first : (pllCandidates src).argmin (PllTriple.wholeDist src freq) ≠ none :=
      fun none => some (List.argmin_eq_none.mp none)
    obtain ⟨c, first⟩ := Option.ne_none_iff_exists'.mp exists_first
    rw [clkCalPllFreqMode0_found out first]
    have found := mem_pllCandidates.mp (List.argmin_mem first)
    exact Or.inr ⟨fun both => bad both.2, found.clock_ne_zero⟩

end Integer

section Registers

variable {clk : NuClk} {pll : VsiPll} {mode x mask mask' value ctl0 ctl1 ctl2 : U32}

theorem clearMask_twice (apart : value &&& mask' = 0) :
    (x &&& ~~~mask ||| value) &&& ~~~mask' ||| 0 = maskedWrite (mask ||| mask') value x := by
  have kept : value &&& ~~~mask' = value := clearMask_eq_iff.mpr apart
  unfold maskedWrite
  rw [BitVec.and_or_distrib_right, kept, BitVec.and_assoc, ← BitVec.not_or]
  exact BitVec.or_zero

theorem writePll_eq_iff : clk.writePll pll ctl0 ctl1 ctl2 = clk ↔
    ctl0 = (clk.pll pll).ctl0 ∧ ctl1 &&& ~~~pllCtl1PdMsk = (clk.pll pll).ctl1 ∧
      ctl2 = (clk.pll pll).ctl2 := by
  have parts : clk.writePll pll ctl0 ctl1 ctl2 = clk ↔
      Function.update clk.pll pll ⟨ctl0, ctl1 &&& ~~~pllCtl1PdMsk, ctl2⟩ = clk.pll := by
    unfold NuClk.writePll
    cases clk
    simp only [NuClk.mk.injEq, true_and]
  rw [parts, Function.update_eq_self_iff]
  cases clk.pll pll
  simp only [PllRegs.mk.injEq]

theorem cleared_iff {clear0 clear1 : U32} (apart : mode <<< pllCtl0ModePos &&& clear0 = 0)
    (within : mode <<< pllCtl0ModePos &&& ~~~pllCtl0Fields mode = 0)
    (first : pllCtl0ModeMsk ||| clear0 = pllCtl0Fields mode)
    (second : clear1 ||| pllCtl1PdMsk = if mode = pllOpmodeInteger
      then pllCtl1PdMsk ||| pllCtl1OutdivMsk else pllCtl1Fields)
    (third : ctl2 = (clk.pll pll).ctl2 ↔ (mode = pllOpmodeSpreadSpectrum → (clk.pll pll).ctl2 = 0)) :
    clk.writePll pll (((clk.pll pll).ctl0 &&& ~~~pllCtl0ModeMsk ||| mode <<< pllCtl0ModePos) &&&
      ~~~clear0 ||| 0) ((clk.pll pll).ctl1 &&& ~~~clear1 ||| 0) ctl2 = clk ↔
        (clk.pll pll).Cleared mode := by
  have both (x : U32) : (x &&& ~~~clear1 ||| 0) &&& ~~~pllCtl1PdMsk = x ↔
      x &&& (clear1 ||| pllCtl1PdMsk) = 0 := by
    have none : x &&& ~~~clear1 ||| 0 = x &&& ~~~clear1 := BitVec.or_zero
    rw [none, BitVec.and_assoc, ← BitVec.not_or, clearMask_eq_iff]
  unfold PllRegs.Cleared
  rw [writePll_eq_iff, clearMask_twice apart, first, MaskedWrite.eq_self_iff within, both, second,
    third]

variable {src freq : Nat}

theorem pllFailure_of_calc {r : NuClk × Nat} {c : PllCalc}
    (cases : PllUnsettable mode src freq ∧ c = pllNone ∨ ¬PllUnsettable mode src freq ∧ c.clk ≠ 0)
    (value : r.2 = c.clk) (same : c = pllNone → (r.1 = clk ↔ (clk.pll pll).Cleared mode)) :
    (r.2 = 0 → r.1 = clk) ↔ (PllUnsettable mode src freq → (clk.pll pll).Cleared mode) := by
  rcases cases with ⟨unset, none⟩ | ⟨set, some⟩
  · have zero : r.2 = 0 := by
      rw [value, none]
      rfl
    rw [← same none]
    exact ⟨fun law _ => law zero, fun kept _ => kept unset⟩
  · exact iff_of_true (fun zero => absurd (value.symm.trans zero) some) fun unset => absurd unset set

theorem clkSetVsiPllFreq_failure (clk : NuClk) (pll : VsiPll) (mode : U32) (src freq : Nat) :
    ((clkSetVsiPllFreq clk pll mode src freq).val.2 = 0 →
        (clkSetVsiPllFreq clk pll mode src freq).val.1 = clk) ↔
      (PllUnsettable mode src freq → (clk.pll pll).Cleared mode) := by
  unfold clkSetVsiPllFreq
  dsimp only
  split_ifs with integer fractional spread
  · subst integer
    refine pllFailure_of_calc (clkCalPllFreqMode0_cases src freq) rfl fun none => ?_
    rw [bind_def]
    dsimp only [pure_def]
    rw [none]
    exact cleared_iff (by decide) (by decide) (by decide) (by decide)
      (iff_of_true rfl fun wrong => absurd wrong (by decide))
  · subst fractional
    refine pllFailure_of_calc (clkCalPllFreqMode1_cases src freq) rfl fun none => ?_
    rw [bind_def]
    dsimp only [pure_def]
    rw [none]
    exact cleared_iff (by decide) (by decide) (by decide) (by decide)
      (iff_of_true rfl fun wrong => absurd wrong (by decide))
  · subst spread
    refine pllFailure_of_calc (clkCalPllFreqMode2_cases src freq) rfl fun none => ?_
    rw [bind_def]
    dsimp only [pure_def]
    rw [none]
    exact cleared_iff (by decide) (by decide) (by decide) (by decide)
      ⟨fun zero _ => zero.symm, fun kept => (kept rfl).symm⟩
  · refine iff_of_true (fun _ => rfl) fun unset => ?_
    unfold PllUnsettable at unset
    rw [if_neg integer, if_neg (not_or.mpr ⟨fractional, spread⟩)] at unset
    exact unset.elim

end Registers

/-- A setter that fails leaves its PLL alone exactly where the request has a setting after all, or the
PLL had none before. -/
theorem pll_failure_iff (clk : NuClk) (idx : ClkPll) (mode : U32) (src freq : BitVec 64) :
    PllFailureLaw clk idx mode src freq ↔ PllFailureKept clk mode src freq idx := by
  have alone : PllFailureLaw clk idx mode src freq ↔
      ((clkSetPllFreq clk idx mode src freq).val.2 = 0 →
        (clkSetPllFreq clk idx mode src freq).val.1 = clk) := by
    refine forall_congr' fun _ => and_iff_left_of_imp fun same => ?_
    rw [same]
    exact id
  rw [alone]
  cases idx with
  | capll =>
    refine iff_of_true (fun zero => ?_) trivial
    unfold clkSetPllFreq clkSetCapllClockFreq at zero ⊢
    dsimp only [pure_def] at zero ⊢
    cases found : capllMap.find? fun e => mode = pllOpmodeInteger ∧ freq.toNat = e.1 with
    | none => rfl
    | some e =>
      have some : ∀ e ∈ capllMap, e.1 ≠ 0 := by decide
      rw [found] at zero
      exact absurd zero (some e (List.mem_of_find?_eq_some found))
  | syspll => exact iff_of_true (fun _ => rfl) trivial
  | vsi pll => exact clkSetVsiPllFreq_failure clk pll mode src.toNat freq.toNat

/-- A request that is too low stops a PLL at 500 MHz, and its getter then divides by zero. -/
theorem lowRequest_stops :
    (clkSetPllFreq ⟨0, fun _ => ⟨0x307d, 0x20, 0⟩⟩ (.vsi .vpll) pllOpmodeFractional 24000000
      500000).val.2 = 0 ∧
    clkGetPllClockFreq ⟨0, fun _ => ⟨0x307d, 0x20, 0⟩⟩ (.vsi .vpll) = pure 500000000 ∧
    (clkGetPllClockFreq (clkSetPllFreq ⟨0, fun _ => ⟨0x307d, 0x20, 0⟩⟩ (.vsi .vpll)
      pllOpmodeFractional 24000000 500000).val.1 (.vsi .vpll)).ok = false ∧
    ¬PllFailureLaw ⟨0, fun _ => ⟨0x307d, 0x20, 0⟩⟩ (.vsi .vpll) pllOpmodeFractional 24000000
      500000 := by
  have zero : (clkSetPllFreq ⟨0, fun _ => ⟨0x307d, 0x20, 0⟩⟩ (.vsi .vpll) pllOpmodeFractional
      24000000 500000).val.2 = 0 := by decide
  have before : (clkGetPllClockFreq ⟨0, fun _ => ⟨0x307d, 0x20, 0⟩⟩ (.vsi .vpll)).ok = true := by
    decide
  have lost : (clkGetPllClockFreq (clkSetPllFreq ⟨0, fun _ => ⟨0x307d, 0x20, 0⟩⟩ (.vsi .vpll)
      pllOpmodeFractional 24000000 500000).val.1 (.vsi .vpll)).ok = false := by decide
  refine ⟨zero, rfl, lost, fun law => ?_⟩
  exact absurd (lost.symm.trans ((law zero).2 before)) Bool.false_ne_true

end NuMakerMA35
