import NuMakerMA35.MaskedWrite
import NuMakerMA35.PllAgree
import Mathlib.Algebra.Order.Field.Basic
import Mathlib.Data.Rat.Cast.Order
import Mathlib.Order.Bounds.Basic
import Mathlib.Tactic.FieldSimp
import Mathlib.Tactic.Linarith

namespace NuMakerMA35

open Checked

def pllCtl0SsratePos : Nat := 20

section Registers

variable (src : Nat) (r : PllRegs)

/-- The multiplier that the fields hold, with its fraction of 24 bits. -/
def PllRegs.multiplier : ℚ :=
  pllField r.ctl0 pllCtl0FbdivMsk 0 + pllField r.ctl1 pllCtl1FracMsk pllCtl1FracPos / 2 ^ 24

def PllRegs.reference : ℚ := src / pllField r.ctl0 pllCtl0IndivMsk pllCtl0IndivPos

def PllRegs.vco : ℚ := r.reference src * r.multiplier

def PllRegs.output : ℚ := r.vco src / pllField r.ctl1 pllCtl1OutdivMsk pllCtl1OutdivPos

def PllRegs.resolution : ℚ :=
  r.reference src / 2 ^ 24 / pllField r.ctl1 pllCtl1OutdivMsk pllCtl1OutdivPos

end Registers

def pllCtl0Fields (mode : U32) : U32 :=
  (if mode = pllOpmodeSpreadSpectrum then pllCtl0SsrateMsk else 0) |||
    (pllCtl0ModeMsk ||| (pllCtl0IndivMsk ||| pllCtl0FbdivMsk))

def pllCtl1Fields : U32 := pllCtl1PdMsk ||| (pllCtl1OutdivMsk ||| pllCtl1FracMsk)

structure PllRegs.Replaces (mode : U32) (old new : PllRegs) : Prop where
  set : pllField new.ctl0 pllCtl0ModeMsk pllCtl0ModePos = mode.toNat
  ctl0 : new.ctl0 &&& ~~~pllCtl0Fields mode = old.ctl0 &&& ~~~pllCtl0Fields mode
  ctl1 : new.ctl1 &&& ~~~pllCtl1Fields = old.ctl1 &&& ~~~pllCtl1Fields
  ctl2 : mode ≠ pllOpmodeSpreadSpectrum → new.ctl2 = old.ctl2

/-- The rate and the slope are those of a modulation with 50 kHz and 1.94 percent. -/
def PllRegs.Modulated (src freq : Nat) (r : PllRegs) : Prop :=
  let rate := src / 2 / (50000 * 2) - 1
  pllField r.ctl0 pllCtl0SsrateMsk pllCtl0SsratePos = rate ∧
    r.ctl2.toNat = (pllThousandths src freq * 194 / rate) * 2 ^ 24 / 100 / 1000 ∧
      r.ctl2.toNat < 2 ^ 24

/-- The request, or its smallest multiple above the lower limit of the output. -/
def PllTarget (freq target : Nat) : Prop :=
  if freq < vsipllFclkoMinFreq then IsLeast {k | freq ∣ k ∧ vsipllFclkoMinFreq < k} target
  else target = freq

/-- Nothing is lost, each value is in its own field, the clocks of the reference and of the VCO are
within their limits, and the output is the target up to one step of the fraction. -/
def PllFractionLaw (clk : NuClk) (pll : VsiPll) (mode : U32) (src freq : Nat) : Prop :=
  let set := clkSetVsiPllFreq clk pll mode src freq
  let r := set.val.1.pll pll
  set.ok = true ∧ PllRegs.Replaces mode (clk.pll pll) r ∧
    (mode = pllOpmodeSpreadSpectrum → r.Modulated src freq) ∧
    (10000000 ≤ r.reference src ∧ r.reference src ≤ 40000000) ∧
    (600000000 ≤ r.vco src ∧ r.vco src ≤ 2400000000) ∧
    ∃ target, PllTarget freq target ∧ |r.output src - target| ≤ r.resolution src

/-- What the cut to thousandths and the rounding of the fraction take from the clock of the VCO. -/
def pllLoss (src freq : Nat) : Nat :=
  pllVco freq * pllDivider src * 1000 % src * 2 ^ 24 +
    (pllThousandths src freq % 1000 * 2 ^ 24 + 500) % 1000 * src

/-- A fractional setting below the upper limit whose divider keeps the reference within its limit
exactly, with a loss of at most one step that leaves the VCO within its limits. -/
structure PllFractionKept (mode : U32) (src freq : Nat) : Prop where
  kind : mode = pllOpmodeFractional
  below : freq < 2400000000
  reference : src ≤ 40000000 * pllDivider src
  near : pllLoss src freq ≤ 1500 * src
  low : pllLoss src freq ≤
    500 * src + 1000 * 2 ^ 24 * ((pllVco freq - 600000000) * pllDivider src)
  high : 500 * src ≤
    pllLoss src freq + 1000 * 2 ^ 24 * ((2400000000 - pllVco freq) * pllDivider src)

section Target

variable {freq target : Nat}

theorem pllTarget_iff (some : 0 < freq) : PllTarget freq target ↔ target = pllFclko freq := by
  unfold PllTarget pllFclko
  by_cases low : freq < 85700000
  · rw [if_pos (show freq < vsipllFclkoMinFreq from low), if_pos low]
    have least : IsLeast {k | freq ∣ k ∧ vsipllFclkoMinFreq < k}
        (freq * (85700000 / freq + 1)) := by
      refine ⟨⟨Dvd.intro _ rfl, Nat.lt_mul_div_succ _ some⟩, ?_⟩
      rintro k ⟨⟨i, rfl⟩, above⟩
      refine Nat.mul_le_mul_left freq (Nat.succ_le_of_lt ?_)
      rwa [Nat.div_lt_iff_lt_mul some, Nat.mul_comm]
    exact ⟨fun other => other.unique least, fun same => same ▸ least⟩
  · rw [if_neg (show ¬freq < vsipllFclkoMinFreq from low), if_neg low]

theorem pllTarget_pos (vco : 600000000 ≤ pllVco freq) : 0 < freq := by
  by_contra none
  rw [show freq = 0 by omega] at vco
  exact absurd vco (by decide)

end Target

section Fields

variable {mask keep value : U32} {m n p x : Nat}

theorem keep_within (within : value &&& ~~~mask = 0) (apart : mask &&& keep = 0) :
    value &&& keep = 0 := by
  rw [← clearMask_eq_iff, BitVec.not_not] at within
  rw [← within, BitVec.and_assoc, apart]
  exact BitVec.and_zero

theorem keep_field {width pos : Nat} (small : n < 2 ^ width) (fits : pos + width ≤ 32)
    (apart : fieldMask 32 width pos &&& keep = 0) : BitVec.ofNat 32 (n <<< pos) &&& keep = 0 := by
  have shifted : BitVec.ofNat 32 (n <<< pos) = BitVec.ofNat 32 n <<< pos := by
    apply BitVec.eq_of_toNat_eq
    rw [BitVec.toNat_shiftLeft, BitVec.toNat_ofNat, BitVec.toNat_ofNat, Nat.shiftLeft_eq,
      Nat.shiftLeft_eq, Nat.mod_mul_mod]
  rw [shifted]
  exact keep_within (MaskedWrite.field_within small fits) apart

theorem pllWord0_keep (mSmall : m < 64) (nSmall : n < 2048) (mode : U32) :
    BitVec.ofNat 32 (m <<< 12 ||| n) &&& ~~~pllCtl0Fields mode = 0 := by
  have inside : fieldMask 32 6 12 &&& ~~~pllCtl0Fields mode = 0 ∧
      fieldMask 32 11 0 &&& ~~~pllCtl0Fields mode = 0 := by
    unfold pllCtl0Fields
    split_ifs <;> decide
  have second := keep_field (show n < 2 ^ 11 from nSmall) (by decide) inside.2
  rw [Nat.shiftLeft_zero] at second
  rw [BitVec.ofNat_or, orMask_and second]
  exact keep_field (show m < 2 ^ 6 from mSmall) (by decide) inside.1

theorem pllWord1_keep (pSmall : p < 8) (xSmall : x < 2 ^ 24) :
    BitVec.ofNat 32 (p <<< 4 ||| x <<< 8) &&& ~~~pllCtl1Fields = 0 := by
  rw [BitVec.ofNat_or, orMask_and (keep_field xSmall (by decide) (by decide))]
  exact keep_field (show p < 2 ^ 3 from pSmall) (by decide) (by decide)

end Fields

section Clocks

variable {src freq v m loss : Nat} {u : ℚ}

theorem cut_and_rounded {t n x f s r w : Nat} (cut : src * t + r = w * 1000)
    (digits : 1000 * n + x = t) (rounded : 1000 * f + s = x * 2 ^ 24 + 500) :
    1000 * src * (n * 2 ^ 24 + f) + (r * 2 ^ 24 + s * src) = 1000 * 2 ^ 24 * w + 500 * src := by
  calc 1000 * src * (n * 2 ^ 24 + f) + (r * 2 ^ 24 + s * src)
      = src * (1000 * n * 2 ^ 24 + (1000 * f + s)) + r * 2 ^ 24 := by ring
    _ = (src * (1000 * n + x) + r) * 2 ^ 24 + 500 * src := by
      rw [rounded]
      ring
    _ = 1000 * 2 ^ 24 * w + 500 * src := by
      rw [digits, cut]
      ring

theorem pllMultiplier_loss (src freq : Nat) :
    1000 * src * (pllThousandths src freq / 1000 * 2 ^ 24 + pllFrac (pllThousandths src freq)) +
      pllLoss src freq = 1000 * 2 ^ 24 * (pllVco freq * pllDivider src) + 500 * src :=
  cut_and_rounded (Nat.div_add_mod _ src) (Nat.div_add_mod _ 1000) (Nat.div_add_mod _ 1000)

theorem vco_low_iff (some : 0 < m) (least : 600000000 ≤ v)
    (whole : 1000 * 2 ^ 24 * u + loss = 1000 * 2 ^ 24 * (v * m) + 500 * src) :
    600000000 ≤ u / m ↔ loss ≤ 500 * src + 1000 * 2 ^ 24 * ((v - 600000000) * m) := by
  have positive : (0 : ℚ) < m := by exact_mod_cast some
  rw [le_div_iff₀ positive, ← @Nat.cast_le ℚ]
  push_cast [Nat.cast_sub least]
  constructor <;> intro h <;> linarith

theorem vco_high_iff (some : 0 < m) (most : v ≤ 2400000000)
    (whole : 1000 * 2 ^ 24 * u + loss = 1000 * 2 ^ 24 * (v * m) + 500 * src) :
    u / m ≤ 2400000000 ↔ 500 * src ≤ loss + 1000 * 2 ^ 24 * ((2400000000 - v) * m) := by
  have positive : (0 : ℚ) < m := by exact_mod_cast some
  rw [div_le_iff₀ positive, ← @Nat.cast_le ℚ]
  push_cast [Nat.cast_sub most]
  constructor <;> intro h <;> linarith

/-- The output is within one step of the fraction when the loss is at most that. -/
theorem output_near_iff {k p : Nat} (some : 0 < m) (pSome : 0 < p) (rate : v = k * p)
    (whole : 1000 * 2 ^ 24 * u + loss = 1000 * 2 ^ 24 * (v * m) + 500 * src) :
    |u / m / p - k| ≤ (src : ℚ) / m / 2 ^ 24 / p ↔ loss ≤ 1500 * src := by
  have positive : (0 : ℚ) < m := by exact_mod_cast some
  have pPositive : (0 : ℚ) < p := by exact_mod_cast pSome
  have distance : u / m / p - k = (u - v * m) / (m * p) := by
    rw [rate]
    push_cast
    field_simp
  have step : (src : ℚ) / m / 2 ^ 24 / p = src / 2 ^ 24 / (m * p) := by
    field_simp
  rw [distance, step, abs_div, abs_of_pos (mul_pos positive pPositive),
    div_le_div_iff_of_pos_right (mul_pos positive pPositive), abs_le, ← @Nat.cast_le ℚ]
  push_cast
  have gained : (0 : ℚ) ≤ loss := Nat.cast_nonneg loss
  have clock : (0 : ℚ) ≤ src := Nat.cast_nonneg src
  constructor
  · rintro ⟨low, -⟩
    linarith
  · intro small
    constructor <;> linarith

end Clocks

section Setting

variable {clk : NuClk} {pll : VsiPll} {mode clear0 clear1 ctl0 ctl1 : U32} {r : PllRegs}
  {src freq k m n p x : Nat}

theorem PllRegs.clocks_of (src : Nat) (held : r.Holds k m n p)
    (frac : pllField r.ctl1 pllCtl1FracMsk pllCtl1FracPos = x) :
    r.reference src = src / m ∧ r.vco src = src * (n + x / 2 ^ 24) / m ∧
      r.output src = src * (n + x / 2 ^ 24) / m / p ∧
      r.resolution src = (src : ℚ) / m / 2 ^ 24 / p := by
  unfold PllRegs.output PllRegs.resolution PllRegs.vco PllRegs.reference PllRegs.multiplier
  rw [held.m, held.n, held.p, frac, div_mul_eq_mul_div]
  exact ⟨rfl, rfl, rfl, rfl⟩

theorem writePll_replaces (clk : NuClk) (pll : VsiPll) (mSmall : m < 64) (nSmall : n < 2048)
    (pSmall : p < 8) (xSmall : x < 2 ^ 24) :
    PllRegs.Replaces pllOpmodeFractional (clk.pll pll)
      ((clk.writePll pll (((clk.pll pll).ctl0 &&& ~~~pllCtl0ModeMsk |||
          pllOpmodeFractional <<< pllCtl0ModePos) &&& ~~~(pllCtl0IndivMsk ||| pllCtl0FbdivMsk) |||
            BitVec.ofNat 32 (m <<< 12 ||| n))
        ((clk.pll pll).ctl1 &&& ~~~(pllCtl1OutdivMsk ||| pllCtl1FracMsk) |||
          BitVec.ofNat 32 (p <<< 4 ||| x <<< 8)) (clk.pll pll).ctl2).pll pll) := by
  constructor
  · exact (writePll_holds (k := 1) (by decide) mSmall nSmall pSmall xSmall (by decide) (by decide)
      (by decide) (by decide) rfl rfl).mode
  · unfold NuClk.writePll
    dsimp only
    rw [Function.update_self]
    dsimp only
    rw [orMask_and (pllWord0_keep mSmall nSmall _), clearMask_and (by decide),
      orMask_and (by decide), clearMask_and (by decide)]
  · unfold NuClk.writePll
    dsimp only
    rw [Function.update_self]
    dsimp only
    rw [clearMask_and (by decide), orMask_and (pllWord1_keep pSmall xSmall),
      clearMask_and (by decide)]
  · intro _
    unfold NuClk.writePll
    dsimp only
    rw [Function.update_self]

theorem fractional_law_iff (high : freq < 2400000000)
    (some : (clkSetVsiPllFreq clk pll pllOpmodeFractional src freq).val.2 ≠ 0) :
    PllFractionLaw clk pll pllOpmodeFractional src freq ↔
      PllFractionKept pllOpmodeFractional src freq := by
  rcases clkCalPllFreqMode1_eq src high with
    none | ⟨⟨least, most⟩, ⟨low, top⟩, bound, p, pSome, pSmall, rate, found⟩
  · obtain ⟨next, set, -⟩ := clkSet_fractional clk pll (m := 0) (n := 0) (p := 0) (x := 0)
      (by decide) (by decide) (by decide) (by decide) none rfl rfl
    rw [set] at some
    exact absurd rfl some
  · obtain ⟨mSome, mSmall, bottom, -⟩ := pllDivider_bounds least most
    have xSmall := pllFrac_lt (pllThousandths src freq)
    obtain ⟨next, set, written, held, frac⟩ := clkSet_fractional clk pll (by omega) (by omega)
      (by omega) xSmall found rfl rfl
    have replaces := writePll_replaces clk pll
      (show pllDivider src < 64 by omega) (show pllThousandths src freq / 1000 < 2048 by omega)
      (show p < 8 by omega) xSmall
    obtain ⟨reference, vco, output, resolution⟩ := PllRegs.clocks_of src held frac
    have whole : 1000 * 2 ^ 24 * ((src : ℚ) * ((pllThousandths src freq / 1000 : Nat) +
        pllFrac (pllThousandths src freq) / 2 ^ 24)) + pllLoss src freq =
          1000 * 2 ^ 24 * (pllVco freq * pllDivider src) + 500 * src := by
      have equal := congrArg (Nat.cast (R := ℚ)) (pllMultiplier_loss src freq)
      push_cast at equal ⊢
      linarith
    unfold PllFractionLaw
    rw [set]
    dsimp only [pure_def]
    rw [← written] at replaces
    rw [reference, vco, output, resolution, vco_low_iff mSome low whole, vco_high_iff mSome top whole]
    simp only [pllTarget_iff (pllTarget_pos low), exists_eq_left]
    rw [output_near_iff mSome pSome rate whole]
    have positive : (0 : ℚ) < pllDivider src := by exact_mod_cast mSome
    have enough : (10000000 : ℚ) ≤ src / pllDivider src := by
      rw [le_div_iff₀ positive]
      exact_mod_cast bottom
    have limit : (src : ℚ) / pllDivider src ≤ 40000000 ↔ src ≤ 40000000 * pllDivider src := by
      rw [div_le_iff₀ positive]
      norm_cast
    rw [limit]
    constructor
    · rintro ⟨-, -, -, ⟨-, inside⟩, ⟨lower, upper⟩, near⟩
      exact ⟨rfl, high, inside, near, lower, upper⟩
    · intro kept
      refine ⟨trivial, replaces, fun spread => absurd spread (by decide), ⟨enough, kept.reference⟩,
        ⟨kept.low, kept.high⟩, kept.near⟩

/-- The setting for a request above the limit is that of 1 GHz from 24 MHz, whatever the source. -/
theorem default_unlawful (high : 2400000000 ≤ freq) (held : r.Holds k 3 250 2)
    (frac : pllField r.ctl1 pllCtl1FracMsk pllCtl1FracPos = 0) (reference : r.reference src ≤ 40000000)
    (vco : r.vco src ≤ 2400000000) {target : Nat} (aim : PllTarget freq target)
    (near : |r.output src - target| ≤ r.resolution src) : False := by
  obtain ⟨value, rate, out, step⟩ := PllRegs.clocks_of src held frac
  have same : target = freq := by
    rw [pllTarget_iff (by omega)] at aim
    rw [aim]
    exact if_neg (by omega)
  have large : (2400000000 : ℚ) ≤ target := by
    rw [same]
    exact_mod_cast high
  rw [out, ← rate, step, ← value, abs_le] at near
  push_cast at near
  linarith [near.1]

/-- The setting stands for the request exactly where it is kept; with a modulation, never. -/
theorem pll_fraction_iff (clk : NuClk) (pll : VsiPll) (mode : U32)
    (kind : mode = pllOpmodeFractional ∨ mode = pllOpmodeSpreadSpectrum) (src freq : BitVec 64)
    (some : (clkSetVsiPllFreq clk pll mode src.toNat freq.toNat).val.2 ≠ 0) :
    PllFractionLaw clk pll mode src.toNat freq.toNat ↔
      PllFractionKept mode src.toNat freq.toNat := by
  generalize src.toNat = src at *
  generalize freq.toNat = freq at *
  by_cases high : freq < 2400000000
  · rcases kind with rfl | rfl
    · exact fractional_law_iff high some
    · have lost := clkCalPllFreqMode2_lost src high some
      refine iff_of_false (fun law => ?_) fun kept => absurd kept.kind (by decide)
      have whole : (clkCalPllFreqMode2 src freq 50000 194).ok = true :=
        (Bool.and_eq_true_iff.mp law.1).1
      rw [lost] at whole
      cases whole
  · refine iff_of_false ?_ fun kept => high kept.below
    rintro ⟨-, -, -, ⟨-, reference⟩, ⟨-, vco⟩, target, aim, near⟩
    by_cases out : src > vsipllFrefMaxFreq ∨ src < vsipllFrefMinFreq
    · apply absurd _ some
      rcases kind with rfl | rfl
      · have none : clkCalPllFreqMode1 src freq = pure pllNone := if_pos out
        obtain ⟨next, set, -⟩ := clkSet_fractional clk pll (m := 0) (n := 0) (p := 0) (x := 0)
          (by decide) (by decide) (by decide) (by decide) none rfl rfl
        rw [set]
        rfl
      · have none : clkCalPllFreqMode2 src freq 50000 194 = pure pllNone := if_pos out
        obtain ⟨next, set, -⟩ := clkSet_spread clk pll (m := 0) (n := 0) (p := 0) (x := 0)
          (by decide) (by decide) (by decide) (by decide) none rfl rfl
        rw [set]
        rfl
    · rcases kind with rfl | rfl
      · have found : clkCalPllFreqMode1 src freq = pure ⟨1000000000, 0x30fa, 0x2 <<< 4, 0⟩ :=
          (if_neg out).trans (if_pos (Nat.le_of_not_lt high))
        obtain ⟨next, set, -, held, frac⟩ := clkSet_fractional clk pll (m := 3) (n := 250) (p := 2)
          (x := 0) (by decide) (by decide) (by decide) (by decide) found rfl rfl
        rw [set] at reference vco near
        exact default_unlawful (Nat.le_of_not_lt high) held frac reference vco aim near
      · have found : clkCalPllFreqMode2 src freq 50000 194 =
            pure ⟨1000000000, 0x30fa, 0x2 <<< 4, 0⟩ :=
          (if_neg out).trans (if_pos (Nat.le_of_not_lt high))
        obtain ⟨next, set, held, frac⟩ := clkSet_spread clk pll (m := 3) (n := 250) (p := 2)
          (x := 0) (by decide) (by decide) (by decide) (by decide) found rfl rfl
        rw [set] at reference vco near
        exact default_unlawful (Nat.le_of_not_lt high) held frac reference vco aim near

theorem wholeMultiple_setting :
    PllFractionLaw ⟨0, fun _ => ⟨0, 0, 0⟩⟩ .vpll pllOpmodeFractional (24000000 : BitVec 64).toNat
        (600000000 : BitVec 64).toNat ↔
      PllFractionKept pllOpmodeFractional (24000000 : BitVec 64).toNat
        (600000000 : BitVec 64).toNat :=
  pll_fraction_iff _ _ _ (Or.inl rfl) _ _ (by decide)

/-- For the modulation of the driver's own table the rate is 30926 in place of 119: the field
holds its low bits, and bit 31 is set beside it. -/
theorem spread_rate_swapped :
    (clkSetVsiPllFreq ⟨0, fun _ => ⟨0, 0, 0⟩⟩ .vpll pllOpmodeSpreadSpectrum 24000000
      533000000).val.2 ≠ 0 ∧
    ((clkSetVsiPllFreq ⟨0, fun _ => ⟨0, 0, 0⟩⟩ .vpll pllOpmodeSpreadSpectrum 24000000
      533000000).val.1.pll .vpll).ctl0 >>> 20 = 30926 % 4096 ∧
    24000000 / 2 / (194 * 2) - 1 = 30926 ∧ 24000000 / 2 / (50000 * 2) - 1 = 119 ∧
    ¬PllFractionLaw ⟨0, fun _ => ⟨0, 0, 0⟩⟩ .vpll pllOpmodeSpreadSpectrum 24000000 533000000 := by
  refine ⟨by decide, by decide, by decide, by decide, fun law => ?_⟩
  have lost : (clkSetVsiPllFreq ⟨0, fun _ => ⟨0, 0, 0⟩⟩ .vpll pllOpmodeSpreadSpectrum 24000000
      533000000).ok = false := by decide
  exact absurd (lost.symm.trans law.1) Bool.false_ne_true

end Setting

end NuMakerMA35
