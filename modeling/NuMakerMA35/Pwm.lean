import NuMakerMA35.Checked
import NuMakerMA35.BitUtil
import Mathlib.Logic.Function.Basic
import Mathlib.Order.Bounds.Basic

namespace NuMakerMA35

open Checked

/-- The loop over prescalers from `p` on, with as many turns: the first one whose period is at most
`most`, and that period. -/
def prescalerLoop (period : Nat → Checked Nat) (most : Nat) : Nat → Nat → Checked (Option (Nat × Nat))
  | 0, _ => pure none
  | turns + 1, p => do
    let i ← period p
    if i ≤ most then pure (some (p, i)) else prescalerLoop period most turns (p + 1)

structure TpwmRegs where
  pwmctl : U32
  pwmclkpsc : U32
  pwmperiod : U32
  pwmcmpdat : U32

def tpwmCnttypeMask : U32 := 3 <<< 1
def tpwmCntmodeMask : U32 := 1 <<< 3
def tpwmUpCount : U32 := 0
def tpwmAutoReloadMode : U32 := 0

/-- `TPWM_ConfigOutputFreqAndDuty`; a loop that ends by its bound leaves the last period it tried. -/
def tpwmConfigOutputFreqAndDuty (pwmClockFreq frequency dutyCycle : Nat) (regs : TpwmRegs) :
    Checked (Nat × TpwmRegs) := do
  let found ← prescalerLoop (fun p => quot (pwmClockFreq / p) frequency) 0x10000 0x1000 1
  let last ← quot (pwmClockFreq / 0x1000) frequency
  let prescaler := (found.getD (0x1001, last)).1
  let period := (found.getD (0x1001, last)).2
  let targetFreq ← quot (pwmClockFreq / prescaler) period
  let pwmctl := regs.pwmctl &&& ~~~tpwmCnttypeMask ||| tpwmUpCount <<< 1
  let pwmctl := pwmctl &&& ~~~tpwmCntmodeMask ||| tpwmAutoReloadMode
  let clkpsc ← less 32 prescaler 1
  let pwmperiod ← less 32 period 1
  let cmp ← (if dutyCycle ≠ 0 then do
      let product ← fit 32 (dutyCycle * period)
      pure (product / 100)
    else pure 0)
  pure (targetFreq, ⟨pwmctl, BitVec.ofNat 32 clkpsc, BitVec.ofNat 32 pwmperiod, BitVec.ofNat 32 cmp⟩)

structure EpwmRegs where
  ctl1 : U32
  clkpsc : Fin 3 → U32
  period : Fin 6 → U32
  cmpdat : Fin 6 → U32
  wgctl0 : U32
  wgctl1 : U32

def epwmCnttype0Mask : U32 := 3
def epwmCntmode0Pos : Nat := 16
def epwmZpctl0Mask : U32 := 3
def epwmPrdpctl0Mask : U32 := 3 <<< 16
def epwmCmpuctl0Mask : U32 := 3
def epwmCmpdctl0Mask : U32 := 3 <<< 16
def epwmOutputLow : U32 := 1
def epwmOutputHigh : U32 := 2

def epwmPair (channel : Fin 6) : Fin 3 := ⟨channel / 2, by omega⟩

/-- `EPWM_ConfigOutputChannel`; a loop that ends by its bound leaves the longest period. -/
def epwmConfigOutputChannel (clockSrc : Nat) (channel : Fin 6) (frequency dutyCycle : Nat)
    (regs : EpwmRegs) : Checked (Nat × EpwmRegs) := do
  let target ← quot clockSrc frequency
  let found ← prescalerLoop (fun p => pure (target / p)) (0x10000 - 1) (0xFFF - 1) 1
  let prescale := (found.getD (0xFFF, 0xFFFF)).1
  let cnr := (found.getD (0xFFF, 0xFFFF)).2
  let divisor ← fit 32 (prescale * cnr)
  let i ← quot clockSrc divisor
  let clkpsc ← less 32 prescale 1
  let shift := channel.val * 2
  let ctl1 := regs.ctl1 &&&
    ~~~(epwmCnttype0Mask <<< shift ||| (1 : U32) <<< epwmCntmode0Pos <<< channel.val)
  let cnr ← less 32 cnr 1
  let next ← fit 32 (cnr + 1)
  let product ← fit 32 (dutyCycle * next)
  let wgctl0 := regs.wgctl0 &&& ~~~((epwmPrdpctl0Mask ||| epwmZpctl0Mask) <<< shift) |||
    epwmOutputHigh <<< shift
  let wgctl1 := regs.wgctl1 &&& ~~~((epwmCmpdctl0Mask ||| epwmCmpuctl0Mask) <<< shift) |||
    epwmOutputLow <<< shift
  pure (i, {
    ctl1 := ctl1
    clkpsc := Function.update regs.clkpsc (epwmPair channel) (BitVec.ofNat 32 clkpsc)
    period := Function.update regs.period channel (BitVec.ofNat 32 cnr)
    cmpdat := Function.update regs.cmpdat channel (BitVec.ofNat 32 (product / 100))
    wgctl0 := wgctl0
    wgctl1 := wgctl1 })

/-- What a configuration owes, by the three registers as they are programmed and the frequency that is
returned: all three fit into their fields; the prescaler is the least one whose period fits, the period
is that prescaler's, the on-time is the duty's share of it; and the frequency is what they give. -/
structure PwmLaw (clk freq duty prescaler period cmp ret : Nat) : Prop where
  prescaler_fits : prescaler < 2 ^ 12
  period_fits : period < 2 ^ 16
  cmp_fits : cmp < 2 ^ 16
  least : IsLeast {p | 0 < p ∧ clk / (freq * p) ≤ 2 ^ 16} (prescaler + 1)
  period_eq : period + 1 = clk / (freq * (prescaler + 1))
  cmp_eq : cmp = duty * (period + 1) / 100
  ret_eq : ret = clk / ((prescaler + 1) * (period + 1))

def TpwmLaw (clk freq duty : U32) (regs : TpwmRegs) : Prop :=
  let done := tpwmConfigOutputFreqAndDuty clk.toNat freq.toNat duty.toNat regs
  done.ok = true ∧ PwmLaw clk.toNat freq.toNat duty.toNat done.val.2.pwmclkpsc.toNat
    done.val.2.pwmperiod.toNat done.val.2.pwmcmpdat.toNat done.val.1

def EpwmLaw (clk : U32) (channel : Fin 6) (freq duty : U32) (regs : EpwmRegs) : Prop :=
  let done := epwmConfigOutputChannel clk.toNat channel freq.toNat duty.toNat regs
  done.ok = true ∧ PwmLaw clk.toNat freq.toNat duty.toNat
    (done.val.2.clkpsc (epwmPair channel)).toNat (done.val.2.period channel).toNat
    (done.val.2.cmpdat channel).toNat done.val.1

/-- The first prescaler whose period, a quotient of `q`, is at most `most`. -/
def firstPrescaler (q most : Nat) : Nat := q / (most + 1) + 1

theorem le_iff_firstPrescaler {q most p : Nat} (some : 0 < p) :
    q / p ≤ most ↔ firstPrescaler q most ≤ p := by
  rw [← Nat.lt_succ_iff, Nat.div_lt_iff_lt_mul some, firstPrescaler, Nat.succ_le_iff,
    Nat.div_lt_iff_lt_mul (by omega), Nat.mul_comm]

theorem prescalerLoop_eq {period : Nat → Checked Nat} {q : Nat} (quotient : ∀ p, period p = pure (q / p))
    (most turns : Nat) {p : Nat} (some : 0 < p) (start : p ≤ firstPrescaler q most) :
    prescalerLoop period most turns p = pure
      (if firstPrescaler q most < p + turns then
        Option.some (firstPrescaler q most, q / firstPrescaler q most) else none) := by
  induction turns generalizing p with
  | zero => rw [prescalerLoop, if_neg (by omega)]
  | succ turns ih =>
    rw [prescalerLoop, quotient, pure_bind]
    by_cases small : q / p ≤ most
    · have here : firstPrescaler q most = p :=
        Nat.le_antisymm ((le_iff_firstPrescaler some).mp small) start
      rw [if_pos small, if_pos (by omega), here]
    · have later : ¬firstPrescaler q most ≤ p := fun le => small ((le_iff_firstPrescaler some).mpr le)
      rw [if_neg small, ih (by omega) (by omega), show p + 1 + turns = p + (turns + 1) by omega]

theorem isLeast_firstPrescaler {clk freq : Nat} {p : Nat} :
    IsLeast {p | 0 < p ∧ clk / (freq * p) ≤ 2 ^ 16} p ↔ p = firstPrescaler (clk / freq) (2 ^ 16) := by
  have same {p : Nat} (some : 0 < p) :
      clk / (freq * p) ≤ 2 ^ 16 ↔ firstPrescaler (clk / freq) (2 ^ 16) ≤ p := by
    rw [← Nat.div_div_eq_div_mul, le_iff_firstPrescaler some]
  have first : 0 < firstPrescaler (clk / freq) (2 ^ 16) := Nat.succ_pos _
  constructor
  · rintro ⟨⟨some, fits⟩, lower⟩
    exact Nat.le_antisymm (lower ⟨first, (same first).mpr le_rfl⟩) ((same some).mp fits)
  · rintro rfl
    exact ⟨⟨first, (same first).mpr le_rfl⟩, fun p both => (same both.1).mp both.2⟩

/-- The frequency is not above the clock, some prescaler can be programmed for it, and a full duty is
not asked of the longest period. -/
def TpwmReaches (clk freq duty : Nat) : Prop :=
  let q := clk / freq
  1 ≤ q ∧ q < 4096 * 65537 ∧ ¬(duty = 100 ∧ q / (q / 65537 + 1) = 65536)

/-- The frequency is not above the clock, and either the loop ends by a period and no smaller prescaler
has a period of 65536, or it ends by its bound and the default values are right. -/
def EpwmReaches (clk freq : Nat) : Prop :=
  let q := clk / freq
  1 ≤ q ∧ ((q < 4094 * 65536 ∧ q / 65536 = q / 65537) ∨ q / 4095 = 65535)

theorem ofNat_toNat_of_lt {n : Nat} (small : n < 2 ^ 32) : (BitVec.ofNat 32 n).toNat = n :=
  (BitVec.toNat_ofNat n 32).trans (Nat.mod_eq_of_lt small)

section Laws

variable {clk freq duty : Nat}

theorem tpwm_cmp {period : Nat} (small : period ≤ 65536) (share : duty ≤ 100) :
    (if duty ≠ 0 then do
      let product ← fit 32 (duty * period)
      pure (product / 100)
    else (pure 0 : Checked Nat)) = pure (duty * period / 100) := by
  have product : duty * period ≤ 100 * 65536 := Nat.mul_le_mul share small
  split_ifs with some
  · rw [fit_of_lt (by omega), pure_bind]
  · rw [not_ne_iff.mp some, Nat.zero_mul, Nat.zero_div]

theorem tpwm_search (above : 0 < freq) :
    prescalerLoop (fun p => quot (clk / p) freq) 0x10000 0x1000 1 = pure
      (if firstPrescaler (clk / freq) 65536 < 4097 then
        some (firstPrescaler (clk / freq) 65536, clk / freq / firstPrescaler (clk / freq) 65536)
      else none) := by
  refine prescalerLoop_eq (fun p => ?_) 65536 4096 (by omega) (Nat.succ_pos _)
  rw [quot_of_pos above, Nat.div_div_eq_div_mul, Nat.div_div_eq_div_mul, Nat.mul_comm]

theorem pwmLaw_iff {p period : Nat} (some : 0 < p) (few : p ≤ 4096) (above : 0 < period)
    (small : period ≤ 65536) :
    PwmLaw clk freq duty (p - 1) (period - 1) (duty * period / 100) (clk / (p * period)) ↔
      p = firstPrescaler (clk / freq) 65536 ∧ period = clk / freq / p ∧ duty * period / 100 < 65536 := by
  have next : p - 1 + 1 = p := Nat.sub_add_cancel some
  have nextPeriod : period - 1 + 1 = period := Nat.sub_add_cancel above
  constructor
  · intro law
    have least := law.least
    have own := law.period_eq
    rw [next] at least own
    rw [nextPeriod, ← Nat.div_div_eq_div_mul] at own
    exact ⟨isLeast_firstPrescaler.mp least, own, law.cmp_fits⟩
  · rintro ⟨least, own, fits⟩
    refine ⟨by omega, by omega, fits, ?_, ?_, ?_, ?_⟩
    · rw [next]
      exact isLeast_firstPrescaler.mpr least
    · rw [next, nextPeriod, ← Nat.div_div_eq_div_mul, own]
    · rw [nextPeriod]
    · rw [next, nextPeriod]

theorem firstPrescaler_period {q most : Nat} (some : 1 ≤ q) (above : 0 < most) :
    1 ≤ q / firstPrescaler q most ∧ q / firstPrescaler q most ≤ most := by
  have first : 0 < firstPrescaler q most := Nat.succ_pos _
  refine ⟨?_, (le_iff_firstPrescaler first).mpr le_rfl⟩
  rw [Nat.one_le_div_iff first]
  have half : q / (most + 1) < q := Nat.div_lt_self some (by omega)
  exact half

end Laws

section Tpwm

variable {clk freq duty : Nat} (regs : TpwmRegs)

theorem tpwm_found {p period : Nat} (first : p = firstPrescaler (clk / freq) 65536)
    (own : period = clk / freq / p) (above : 0 < freq) (share : duty ≤ 100) (few : p ≤ 4096)
    (least : 1 ≤ period) (most : period ≤ 65536) :
    ∃ pwmctl, tpwmConfigOutputFreqAndDuty clk freq duty regs = pure (clk / (p * period), ⟨pwmctl,
      BitVec.ofNat 32 (p - 1), BitVec.ofNat 32 (period - 1), BitVec.ofNat 32 (duty * period / 100)⟩) := by
  have some : 1 ≤ p := first ▸ Nat.succ_pos _
  unfold tpwmConfigOutputFreqAndDuty
  rw [tpwm_search above, quot_of_pos above, ← first, ← own, if_pos (by omega)]
  simp only [pure_bind, Option.getD_some]
  rw [quot_of_pos least, less_of_le some (by omega), less_of_le least (by omega), tpwm_cmp most share,
    Nat.div_div_eq_div_mul]
  exact ⟨_, rfl⟩

theorem tpwm_lost (above : 0 < freq) (missed : clk / freq = 0) :
    (tpwmConfigOutputFreqAndDuty clk freq duty regs).ok = false := by
  unfold tpwmConfigOutputFreqAndDuty
  rw [tpwm_search above, quot_of_pos above, missed]
  simp only [pure_bind]
  exact quot_zero_lost rfl

/-- The loop that ends by its bound programs a prescaler that is one too large for its field. -/
theorem tpwm_unreached (above : 0 < freq) (many : ¬firstPrescaler (clk / freq) 65536 < 4097) :
    (tpwmConfigOutputFreqAndDuty clk freq duty regs).val.2.pwmclkpsc.toNat = 4096 := by
  unfold tpwmConfigOutputFreqAndDuty
  rw [tpwm_search above, if_neg many, quot_of_pos above]
  simp only [Option.getD_none, bind_def, pure_def]
  decide

end Tpwm

theorem tpwmLaw_iff {clk freq duty : U32} (some : freq ≠ 0) (share : duty ≤ 100) (regs : TpwmRegs) :
    TpwmLaw clk freq duty regs ↔ TpwmReaches clk.toNat freq.toNat duty.toNat := by
  have above : 0 < freq.toNat := BitVec.toNat_pos_of_ne_zero some
  have dutySmall : duty.toNat ≤ 100 := share
  unfold TpwmLaw TpwmReaches
  set q := clk.toNat / freq.toNat with quotient
  have firstEq : firstPrescaler q 65536 = q / 65537 + 1 := rfl
  by_cases reached : 1 ≤ q
  · obtain ⟨least, most⟩ := firstPrescaler_period reached (show 0 < 65536 by omega)
    by_cases few : firstPrescaler q 65536 < 4097
    · obtain ⟨pwmctl, run⟩ := tpwm_found regs rfl rfl above dutySmall (Nat.lt_succ_iff.mp few) least most
      rw [← quotient, firstEq] at run
      rw [firstEq] at few least most
      set period := q / (q / 65537 + 1) with own
      have product := Nat.mul_le_mul dutySmall most
      have full : duty.toNat * period / 100 < 65536 ↔ ¬(duty.toNat = 100 ∧ period = 65536) := by
        constructor
        · rintro fits ⟨all, longest⟩
          rw [all, longest] at fits
          omega
        · intro part
          by_cases all : duty.toNat = 100
          · rw [all]
            omega
          · have := Nat.mul_le_mul (show duty.toNat ≤ 99 by omega) most
            omega
      rw [run]
      simp only [pure_def, true_and]
      rw [ofNat_toNat_of_lt (by omega), ofNat_toNat_of_lt (by omega), ofNat_toNat_of_lt (by omega),
        pwmLaw_iff (Nat.succ_pos _) (by omega) least most, ← quotient, full]
      constructor
      · rintro ⟨-, -, part⟩
        exact ⟨reached, by omega, part⟩
      · rintro ⟨-, -, part⟩
        exact ⟨rfl, own, part⟩
    · refine iff_of_false (fun law => ?_) (by omega)
      have fits := law.2.prescaler_fits
      rw [tpwm_unreached regs above few] at fits
      omega
  · refine iff_of_false (fun law => ?_) (fun holds => reached holds.1)
    have zero : clk.toNat / freq.toNat = 0 := Nat.lt_one_iff.mp (Nat.not_le.mp reached)
    exact absurd law.1 (by rw [tpwm_lost regs above zero]; exact Bool.noConfusion)

section Epwm

variable {clk freq duty : Nat} (channel : Fin 6) (regs : EpwmRegs)

theorem epwm_run {p period : Nat} (above : 0 < freq) (share : duty ≤ 100)
    (given : (if firstPrescaler (clk / freq) 65535 < 4095 then
      some (firstPrescaler (clk / freq) 65535, clk / freq / firstPrescaler (clk / freq) 65535)
      else none).getD (0xFFF, 0xFFFF) = (p, period))
    (some : 1 ≤ p) (few : p ≤ 4095) (least : 1 ≤ period) (most : period ≤ 65535) :
    ∃ after, epwmConfigOutputChannel clk channel freq duty regs = pure (clk / (p * period), after) ∧
      after.clkpsc (epwmPair channel) = BitVec.ofNat 32 (p - 1) ∧
      after.period channel = BitVec.ofNat 32 (period - 1) ∧
      after.cmpdat channel = BitVec.ofNat 32 (duty * period / 100) := by
  have product : p * period ≤ 4095 * 65535 := Nat.mul_le_mul few most
  have positive : 0 < p * period := Nat.mul_pos some least
  have share' : duty * period ≤ 100 * 65535 := Nat.mul_le_mul share most
  unfold epwmConfigOutputChannel
  rw [quot_of_pos above, pure_bind, prescalerLoop_eq (q := clk / freq) (fun _ => rfl) _ _ (by omega)
    (Nat.succ_pos _)]
  simp only [pure_bind, Nat.reduceSub, given]
  rw [fit_of_lt (by omega), pure_bind, quot_of_pos positive, pure_bind, less_of_le some (by omega),
    pure_bind, less_of_le least (by omega), pure_bind, Nat.sub_add_cancel least, fit_of_lt (by omega),
    pure_bind, fit_of_lt (by omega), pure_bind]
  exact ⟨_, rfl, Function.update_self .., Function.update_self .., Function.update_self ..⟩

theorem epwm_lost (above : 0 < freq) (missed : clk / freq = 0) :
    (epwmConfigOutputChannel clk channel freq duty regs).ok = false := by
  unfold epwmConfigOutputChannel
  rw [quot_of_pos above, pure_bind, prescalerLoop_eq (q := clk / freq) (fun _ => rfl) _ _ (by omega)
    (Nat.succ_pos _), missed]
  simp only [pure_bind]
  exact bind_lost (quot_zero_lost rfl)

end Epwm

theorem epwmLaw_iff {clk freq duty : U32} (some : freq ≠ 0) (share : duty ≤ 100) (channel : Fin 6)
    (regs : EpwmRegs) : EpwmLaw clk channel freq duty regs ↔ EpwmReaches clk.toNat freq.toNat := by
  have above : 0 < freq.toNat := BitVec.toNat_pos_of_ne_zero some
  have dutySmall : duty.toNat ≤ 100 := share
  unfold EpwmLaw EpwmReaches
  set q := clk.toNat / freq.toNat with quotient
  have firstEq : firstPrescaler q 65535 = q / 65536 + 1 := rfl
  have leastEq : firstPrescaler q 65536 = q / 65537 + 1 := rfl
  by_cases reached : 1 ≤ q
  · -- the values that are programmed, whether the loop finds them or not
    obtain ⟨p, period, given⟩ : ∃ p period, (if firstPrescaler q 65535 < 4095 then
      Option.some (firstPrescaler q 65535, q / firstPrescaler q 65535) else none).getD (0xFFF, 0xFFFF) =
        (p, period) := ⟨_, _, rfl⟩
    obtain ⟨least, most⟩ := firstPrescaler_period reached (show 0 < 65535 by omega)
    have values : (q / 65536 < 4094 ∧ p = q / 65536 + 1 ∧ period = q / p) ∨
        (4094 ≤ q / 65536 ∧ p = 4095 ∧ period = 65535) := by
      by_cases few : firstPrescaler q 65535 < 4095
      · rw [if_pos few, Option.getD_some, Prod.mk.injEq] at given
        exact .inl ⟨by omega, given.1.symm, by rw [← given.1, given.2]⟩
      · rw [if_neg few, Option.getD_none, Prod.mk.injEq] at given
        exact .inr ⟨by omega, given.1.symm, given.2.symm⟩
    have bounds : 1 ≤ period ∧ period ≤ 65535 := by
      rcases values with ⟨-, here, own⟩ | ⟨-, -, longest⟩
      · rw [own, here]
        exact ⟨least, most⟩
      · omega
    obtain ⟨after, run, clkpsc, periods, cmp⟩ := epwm_run channel regs above dutySmall given
      (by omega) (by omega) bounds.1 bounds.2
    have product := Nat.mul_le_mul dutySmall bounds.2
    rw [run]
    simp only [pure_def, true_and, clkpsc, periods, cmp]
    rw [ofNat_toNat_of_lt (by omega), ofNat_toNat_of_lt (by omega), ofNat_toNat_of_lt (by omega),
      pwmLaw_iff (by omega) (by omega) bounds.1 (by omega), ← quotient, leastEq]
    rcases values with ⟨few, here, own⟩ | ⟨many, last, longest⟩
    · rw [← own]
      omega
    · subst last longest
      omega
  · refine iff_of_false (fun law => ?_) (fun holds => reached holds.1)
    have zero : clk.toNat / freq.toNat = 0 := Nat.lt_one_iff.mp (Nat.not_le.mp reached)
    exact absurd law.1 (by rw [epwm_lost channel regs above zero]; exact Bool.noConfusion)

/-- Each of the two functions meets the law just where its own condition holds. -/
theorem pwm_frequency_iff {clk freq duty : U32} (some : freq ≠ 0) (share : duty ≤ 100)
    (channel : Fin 6) (tpwm : TpwmRegs) (epwm : EpwmRegs) :
    (TpwmLaw clk freq duty tpwm ↔ TpwmReaches clk.toNat freq.toNat duty.toNat) ∧
      (EpwmLaw clk channel freq duty epwm ↔ EpwmReaches clk.toNat freq.toNat) :=
  ⟨tpwmLaw_iff some share tpwm, epwmLaw_iff some share channel epwm⟩

def TpwmRegs.reset : TpwmRegs := ⟨0, 0, 0, 0⟩

def EpwmRegs.reset : EpwmRegs := ⟨0, fun _ => 0, fun _ => 0, fun _ => 0, 0, 0⟩

theorem pwm_frequency_iff_kilohertz :
    (TpwmLaw 180000000 1000 50 .reset ↔ TpwmReaches 180000000 1000 50) ∧
      (EpwmLaw 180000000 0 1000 50 .reset ↔ EpwmReaches 180000000 1000) :=
  pwm_frequency_iff (by decide) (by decide) 0 .reset .reset

/-- A frequency above the clock: both functions divide by a period of zero. -/
theorem pwm_above_clock :
    (tpwmConfigOutputFreqAndDuty 24000000 24000001 50 .reset).ok = false ∧
      (epwmConfigOutputChannel 24000000 0 24000001 50 .reset).ok = false ∧
      ¬TpwmLaw 24000000 24000001 50 .reset ∧ ¬EpwmLaw 24000000 0 24000001 50 .reset := by
  have tpwm : (tpwmConfigOutputFreqAndDuty 24000000 24000001 50 .reset).ok = false := by decide
  have epwm : (epwmConfigOutputChannel 24000000 0 24000001 50 .reset).ok = false := by decide
  exact ⟨tpwm, epwm, fun law => Bool.noConfusion (law.1.symm.trans tpwm),
    fun law => Bool.noConfusion (law.1.symm.trans epwm)⟩

end NuMakerMA35
