import NuMakerMA35.EpwmSet
import NuMakerMA35.HwTimer
import Mathlib.Algebra.Order.Field.Basic
import Mathlib.Algebra.Order.Field.Rat
import Mathlib.Tactic.FieldSimp
import Mathlib.Tactic.LinearCombination
import Mathlib.Tactic.Linarith
import Mathlib.Tactic.Positivity

namespace NuMakerMA35

open Checked

/-- The nanoseconds of a period and a pulse, as `nu_tpwm_get` and `nu_epwm_get` compute them. -/
def pwmReal (clk prescale period pulse : Nat) : Checked (Nat × Nat) := do
  let tick ← quot (10 ^ 12) clk
  let timeTick ← fit 32 tick
  let prescaler ← fit 32 (prescale + 1)
  let next ← fit 32 (period + 1)
  let cycles ← fit 32 (prescaler * next)
  let picoseconds ← fit 32 (cycles * timeTick)
  let on ← fit 32 (prescaler * pulse)
  let onPicoseconds ← fit 32 (on * timeTick)
  pure (picoseconds / 1000, onPicoseconds / 1000)

def nuTpwmSet (clocks : TimerClocks) (period pulse : U32) (regs : TpwmRegs) :
    Checked (Int × TpwmRegs) :=
  if period = 0 then pure (-1, regs)
  else do
    let freq ← quot (10 ^ 9) period.toNat
    let hundredfold ← fit 32 (pulse.toNat * 100)
    let dutycycle ← quot hundredfold period.toNat
    let (_, regs) ← tpwmConfigOutputFreqAndDuty (clkGetSysclk1Freq clocks).toNat freq dutycycle regs
    pure (0, regs)

def nuTpwmGet (clocks : TimerClocks) (timer : Fin 12) (regs : TpwmRegs) : Checked (Nat × Nat) :=
  pwmReal (timerGetModuleClock clocks timer).toNat regs.pwmclkpsc.toNat regs.pwmperiod.toNat
    regs.pwmcmpdat.toNat

def nuEpwmGet (clocks : TimerClocks) (channel : Fin 6) (regs : EpwmRegs) : Checked (Nat × Nat) :=
  pwmReal (clkGetSysclk1Freq clocks).toNat (regs.clkpsc (epwmPair channel)).toNat
    (regs.period channel).toNat (regs.cmpdat channel).toNat

/-- The counters go from one cycle of their clock to 4096 times 65536 of them. -/
def PwmProducible (clk period : Nat) : Prop :=
  10 ^ 9 ≤ period * clk ∧ period * clk ≤ 4096 * 65536 * 10 ^ 9

/-- The period that is read back, and the ratio of the pulse to it. -/
structure PwmServed (clk period pulse prescaler : Nat) (real : Nat × Nat) : Prop where
  period_near : |(real.1 : ℚ) - period| ≤
    prescaler * 10 ^ 9 / clk + (10 ^ 9 / (10 ^ 9 / period : Nat) - period)
  pulse_near : |(real.2 : ℚ) / real.1 - pulse / period| ≤ 1 / 100

/-- What a set with its result, the three registers that it programs and a get after it owe. -/
def PwmRoundTrip (clk period pulse : Nat) (ret : Int) (ok : Bool) (prescale counter cmp : U32)
    (get : Checked (Nat × Nat)) : Prop :=
  (¬PwmProducible clk period → ret < 0) ∧
    (PwmProducible clk period → (ret = 0 ∧ ok = true ∧ get.ok = true) ∧
      (prescale.toNat < 2 ^ 12 ∧ counter.toNat < 2 ^ 16 ∧ cmp.toNat < 2 ^ 16) ∧
      PwmServed clk period pulse (prescale.toNat + 1) get.val)

def TpwmRoundTrip (clocks : TimerClocks) (timer : Fin 12) (period pulse : U32) (regs : TpwmRegs) :
    Prop :=
  let set := nuTpwmSet clocks period pulse regs
  PwmRoundTrip (timerGetModuleClock clocks timer).toNat period.toNat pulse.toNat set.val.1 set.ok
    set.val.2.pwmclkpsc set.val.2.pwmperiod set.val.2.pwmcmpdat (nuTpwmGet clocks timer set.val.2)

def EpwmRoundTrip (clocks : TimerClocks) (channel : Fin 6) (period pulse : U32) (regs : EpwmRegs) :
    Prop :=
  let set := nuEpwmSet (clkGetSysclk1Freq clocks).toNat channel period pulse regs
  PwmRoundTrip (clkGetSysclk1Freq clocks).toNat period.toNat pulse.toNat set.val.1 set.ok
    (set.val.2.clkpsc (epwmPair channel)) (set.val.2.period channel) (set.val.2.cmpdat channel)
    (nuEpwmGet clocks channel set.val.2)

/-- What all the divisions drop is within a tick and the rounding of the frequency, and within a
hundredth of the period. -/
def PwmRounds (clk period pulse prescaler cycles on : Nat) : Prop :=
  let freq : Nat := 10 ^ 9 / period
  let tick : Nat := 10 ^ 12 / clk
  let duty := pulse * 100 / period
  let dropped := cycles * tick % 1000
  let droppedOn := on * tick % 1000
  let rounding : ℤ := 1000 * clk * (10 ^ 9 % period : Nat)
  let whole : ℤ := cycles * tick - dropped
  |(10 : ℤ) ^ 12 * (clk - freq * cycles) + freq * (cycles * (10 ^ 12 % clk : Nat) + clk * dropped) -
      rounding| ≤ 10 ^ 12 * prescaler * freq + rounding ∧
    |(pulse * 100 % period : Nat) * whole +
      period * (((duty : ℤ) * cycles - 100 * on) * tick + 100 * droppedOn - duty * dropped)| ≤
        period * whole

/-- A period of a second at most and a cycle at least, a pulse whose hundredfold fits into 32 bits, the
picoseconds of the period that do, and no more dropped than is allowed. -/
structure PwmKept (clk period pulse prescaler cycles on : Nat) : Prop where
  second : period ≤ 10 ^ 9
  cycle : 10 ^ 9 ≤ period * clk
  pulse_fits : pulse * 100 < 2 ^ 32
  cycles_fit : cycles * (10 ^ 12 / clk) < 2 ^ 32
  rounds : PwmRounds clk period pulse prescaler cycles on

/-- The prescaler and the period that the timer's configuration chooses. -/
def tpwmChoice (q : Nat) : Nat × Nat := (q / 65537 + 1, q / (q / 65537 + 1))

/-- In cycles of the module's clock, the on-time also in its register. -/
def TpwmKept (clocks : TimerClocks) (timer : Fin 12) (period pulse : Nat) : Prop :=
  let (p, n) := tpwmChoice ((clkGetSysclk1Freq clocks).toNat / (10 ^ 9 / period))
  let on := pulse * 100 / period * n / 100
  on < 2 ^ 16 ∧
    PwmKept (timerGetModuleClock clocks timer).toNat period pulse p (p * n) (p * on)

/-- With a smaller prescaler than before the channel's own values are rescaled. -/
def EpwmKept (clocks : TimerClocks) (channel : Fin 6) (period pulse : Nat) (regs : EpwmRegs) : Prop :=
  let clk := (clkGetSysclk1Freq clocks).toNat
  let (p, n) := epwmChoice (clk / (10 ^ 9 / period))
  let on := pulse * 100 / period * n / 100
  let old := (regs.clkpsc (epwmPair channel)).toNat + 1
  if old ≤ p then PwmKept clk period pulse p (p * n) (p * on)
  else PwmKept clk period pulse p (p * (n * p / old + 1)) (p * (on * p / old))

section Rounds

variable {clk period pulse prescaler cycles on f t d T U : Nat}

/-- The difference of the periods in what the divisions drop, with `f` the frequency, `t` the tick and
`T` the period that is read back. -/
theorem period_near_iff {ρ r s : Nat} (above : 0 < clk) (freq : 0 < f)
    (second : period * f + ρ = 10 ^ 9) (tick : clk * t + r = 10 ^ 12)
    (real : 1000 * T + s = cycles * t) :
    |(T : ℚ) - period| ≤ prescaler * 10 ^ 9 / clk + (10 ^ 9 / f - period) ↔
      |(10 : ℤ) ^ 12 * (clk - f * cycles) + f * (cycles * r + clk * s) - 1000 * clk * ρ| ≤
        (10 : ℤ) ^ 12 * prescaler * f + 1000 * clk * ρ := by
  have secondInt : (period * f + ρ : ℤ) = 10 ^ 9 := by exact_mod_cast second
  have tickInt : (clk * t + r : ℤ) = 10 ^ 12 := by exact_mod_cast tick
  have realInt : (1000 * T + s : ℤ) = cycles * t := by exact_mod_cast real
  have difference : (10 : ℤ) ^ 12 * (clk - f * cycles) + f * (cycles * r + clk * s) - 1000 * clk * ρ =
      1000 * clk * f * (period - T) := by
    linear_combination f * cycles * tickInt + f * clk * realInt - 1000 * clk * secondInt
  have scale : (0 : ℚ) < 1000 * clk * f := by positivity
  have allowed : 1000 * (clk : ℚ) * f * (prescaler * 10 ^ 9 / clk + (10 ^ 9 / f - period)) =
      1000000000000 * prescaler * f + 1000 * clk * ρ := by
    have aboveRat : (clk : ℚ) ≠ 0 := Nat.cast_ne_zero.mpr (Nat.ne_of_gt above)
    have freqRat : (f : ℚ) ≠ 0 := Nat.cast_ne_zero.mpr (Nat.ne_of_gt freq)
    have secondRat : (period * f + ρ : ℚ) = 10 ^ 9 := by exact_mod_cast second
    field_simp
    linear_combination -1000 * (clk : ℚ) * secondRat
  rw [difference, ← Int.cast_le (R := ℚ)]
  push_cast
  rw [← allowed, abs_mul, abs_of_pos scale, abs_sub_comm, mul_le_mul_iff_right₀ scale]

/-- The difference of the ratios likewise, with `d` the duty and `U` the pulse that is read back. -/
theorem pulse_near_iff {e s u : Nat} (some : 0 < period) (whole : 0 < T)
    (duty : period * d + e = pulse * 100) (real : 1000 * T + s = cycles * t)
    (realOn : 1000 * U + u = on * t) :
    |(U : ℚ) / T - pulse / period| ≤ 1 / 100 ↔
      |(e : ℤ) * (cycles * t - s) + period * (((d : ℤ) * cycles - 100 * on) * t + 100 * u - d * s)| ≤
        period * (cycles * t - s) := by
  have dutyInt : (period * d + e : ℤ) = pulse * 100 := by exact_mod_cast duty
  have realInt : (1000 * T + s : ℤ) = cycles * t := by exact_mod_cast real
  have realOnInt : (1000 * U + u : ℤ) = on * t := by exact_mod_cast realOn
  have difference : (e : ℤ) * (cycles * t - s) +
      period * (((d : ℤ) * cycles - 100 * on) * t + 100 * u - d * s) =
      100000 * (pulse * T - period * U) := by
    linear_combination -(e + period * d) * realInt + 100 * period * realOnInt + 1000 * T * dutyInt
  have allowed : (period : ℤ) * (cycles * t - s) = 1000 * (T * period) := by
    linear_combination -period * realInt
  have scale : (0 : ℚ) < T * period := by positivity
  have someRat : (period : ℚ) ≠ 0 := Nat.cast_ne_zero.mpr (Nat.ne_of_gt some)
  have wholeRat : (T : ℚ) ≠ 0 := Nat.cast_ne_zero.mpr (Nat.ne_of_gt whole)
  have ratio : (U : ℚ) / T - pulse / period = (period * U - pulse * T) / (T * period) := by
    field_simp
  rw [difference, allowed, ratio, abs_div, abs_of_pos scale, div_le_iff₀ scale, abs_mul,
    ← Int.cast_le (R := ℚ)]
  push_cast
  rw [abs_sub_comm, abs_of_pos (show (0 : ℚ) < 100000 by norm_num)]
  constructor <;> intro near <;> linarith

theorem pwmServed_iff (above : 0 < clk) (some : 0 < period) (second : period ≤ 10 ^ 9)
    (whole : 0 < cycles * (10 ^ 12 / clk) / 1000) :
    PwmServed clk period pulse prescaler
        (cycles * (10 ^ 12 / clk) / 1000, on * (10 ^ 12 / clk) / 1000) ↔
      PwmRounds clk period pulse prescaler cycles on := by
  have periods := @period_near_iff clk period prescaler cycles _ _ _ _ _ _ above
    (Nat.div_pos second some) (Nat.div_add_mod ..) (Nat.div_add_mod (10 ^ 12) clk)
    (Nat.div_add_mod (cycles * _) 1000)
  have pulses := pulse_near_iff some whole (Nat.div_add_mod (pulse * 100) period) (Nat.div_add_mod ..)
    (Nat.div_add_mod (on * _) 1000)
  exact ⟨fun served => ⟨periods.mp served.period_near, pulses.mp served.pulse_near⟩,
    fun rounds => ⟨periods.mpr rounds.1, pulses.mpr rounds.2⟩⟩

/-- Where a period of whole hertz and a pulse of whole percents are made exactly, what is dropped on
the way back is little for a clock that is slow enough and a period of 100 ns or more. -/
theorem PwmRounds.of_exact (hertz : period ∣ 10 ^ 9) (made : clk = 10 ^ 9 / period * cycles)
    (percent : period ∣ pulse * 100) (madeOn : pulse * 100 / period * cycles = 100 * on)
    (part : pulse ≤ period) (slow : clk * (cycles + 999) ≤ 10 ^ 12 * prescaler)
    (long : 100899 ≤ cycles * (10 ^ 12 / clk)) : PwmRounds clk period pulse prescaler cycles on := by
  have some : 0 < period := Nat.pos_of_dvd_of_pos hertz (by decide)
  have above : 0 < clk := Nat.pos_of_ne_zero fun none => by simp [none] at long
  have least : pulse * 100 / period ≤ 100 := by
    rw [Nat.div_le_iff_le_mul_add_pred some]
    omega
  have dropped := Nat.mod_lt (cycles * (10 ^ 12 / clk)) (show 0 < 1000 by decide)
  have droppedOn := Nat.mod_lt (on * (10 ^ 12 / clk)) (show 0 < 1000 by decide)
  have tick := Nat.mod_lt (10 ^ 12) above
  unfold PwmRounds
  dsimp only
  rw [Nat.mod_eq_zero_of_dvd hertz, Nat.mod_eq_zero_of_dvd percent]
  generalize 10 ^ 9 / period = f at made
  generalize pulse * 100 / period = d at madeOn least
  generalize cycles * (10 ^ 12 / clk) % 1000 = s at dropped
  generalize on * (10 ^ 12 / clk) % 1000 = u at droppedOn
  generalize 10 ^ 12 % clk = r at tick
  have madeInt : (clk : ℤ) = f * cycles := by exact_mod_cast made
  have madeOnInt : (d : ℤ) * cycles = 100 * on := by exact_mod_cast madeOn
  constructor
  · have few : cycles * r + clk * s ≤ 10 ^ 12 * prescaler := by
      calc cycles * r + clk * s ≤ cycles * clk + clk * 999 := by gcongr; omega
        _ = clk * (cycles + 999) := by rw [Nat.mul_add, Nat.mul_comm cycles]
        _ ≤ 10 ^ 12 * prescaler := slow
    have all : f * (cycles * r + clk * s) ≤ 10 ^ 12 * prescaler * f := by
      rw [Nat.mul_comm f]
      exact Nat.mul_le_mul_right f few
    have allInt : (f : ℤ) * (cycles * r + clk * s) ≤ 10 ^ 12 * prescaler * f := by exact_mod_cast all
    rw [madeInt, sub_self, ← madeInt, mul_zero, zero_add, Nat.cast_zero, mul_zero, sub_zero, add_zero,
      abs_of_nonneg (by positivity)]
    exact allInt
  · have wholeInt : (100899 : ℤ) ≤ cycles * (10 ^ 12 / clk : Nat) := by exact_mod_cast long
    rw [madeOnInt, sub_self, Nat.cast_zero, zero_mul, zero_mul, zero_add, zero_add, abs_mul,
      abs_of_nonneg (Int.natCast_nonneg period)]
    have product : (d : ℤ) * s ≤ 100 * 999 := by exact_mod_cast Nat.mul_le_mul least (by omega)
    have low : (0 : ℤ) ≤ d * s := by positivity
    refine mul_le_mul_of_nonneg_left (abs_le.mpr ⟨?_, ?_⟩) (Int.natCast_nonneg period) <;> omega

end Rounds

section Get

variable {clk period pulse prescale counter cmp : Nat}

theorem pwmReal_eq (above : 0 < clk) (tick : 10 ^ 12 / clk < 2 ^ 32) (few : prescale < 2 ^ 12)
    (small : counter < 2 ^ 16) (part : cmp ≤ counter + 1)
    (fits : (prescale + 1) * (counter + 1) * (10 ^ 12 / clk) < 2 ^ 32) :
    pwmReal clk prescale counter cmp =
      pure ((prescale + 1) * (counter + 1) * (10 ^ 12 / clk) / 1000,
        (prescale + 1) * cmp * (10 ^ 12 / clk) / 1000) := by
  have cycles : (prescale + 1) * (counter + 1) ≤ 4096 * 65536 := Nat.mul_le_mul (by omega) (by omega)
  have on : (prescale + 1) * cmp ≤ (prescale + 1) * (counter + 1) := Nat.mul_le_mul_left _ part
  have onFits : (prescale + 1) * cmp * (10 ^ 12 / clk) < 2 ^ 32 :=
    Nat.lt_of_le_of_lt (Nat.mul_le_mul_right _ on) fits
  rw [pwmReal, quot_of_pos above, pure_bind, fit_of_lt tick, pure_bind, fit_of_lt (by omega), pure_bind,
    fit_of_lt (by omega), pure_bind, fit_of_lt (by omega), pure_bind, fit_of_lt fits, pure_bind,
    fit_of_lt (by omega), pure_bind, fit_of_lt onFits, pure_bind]

theorem pwmReal_fits (tick : 10 ^ 12 / clk < 2 ^ 32) (few : prescale < 2 ^ 12)
    (small : counter < 2 ^ 16) (ok : (pwmReal clk prescale counter cmp).ok = true) :
    (prescale + 1) * (counter + 1) * (10 ^ 12 / clk) < 2 ^ 32 := by
  have cycles : (prescale + 1) * (counter + 1) ≤ 4096 * 65536 := Nat.mul_le_mul (by omega) (by omega)
  by_contra wraps
  rw [pwmReal, ok_quot_bind] at ok
  rw [fit_of_lt tick, pure_bind, fit_of_lt (by omega), pure_bind, fit_of_lt (by omega), pure_bind,
    fit_of_lt (by omega), pure_bind, fit_lost (Nat.le_of_not_lt wraps)] at ok
  exact Bool.noConfusion ok.2

end Get

section RoundTrip

variable {clk period pulse : Nat} {prescale counter cmp : U32}

theorem not_pwmRoundTrip_of_lost {get : Checked (Nat × Nat)} :
    ¬PwmRoundTrip clk period pulse 0 false prescale counter cmp get := by
  intro trip
  by_cases producible : PwmProducible clk period
  · exact Bool.noConfusion (trip.2 producible).1.2.1
  · exact Int.lt_irrefl 0 (trip.1 producible)

theorem pwmRoundTrip_iff (some : 0 < period) (second : period ≤ 10 ^ 9) (slow : clk ≤ 180000000)
    (tick : 10 ^ 12 / clk < 2 ^ 32) (pulseFits : pulse * 100 < 2 ^ 32) (few : prescale.toNat < 2 ^ 12)
    (small : counter.toNat < 2 ^ 16) (part : cmp.toNat ≤ counter.toNat + 1) :
    PwmRoundTrip clk period pulse 0 true prescale counter cmp
        (pwmReal clk prescale.toNat counter.toNat cmp.toNat) ↔
      cmp.toNat < 2 ^ 16 ∧ PwmKept clk period pulse (prescale.toNat + 1)
        ((prescale.toNat + 1) * (counter.toNat + 1)) ((prescale.toNat + 1) * cmp.toNat) := by
  have longest : period * clk ≤ 4096 * 65536 * 10 ^ 9 :=
    Nat.le_trans (Nat.mul_le_mul second slow) (by decide)
  have cycle (above : 0 < clk) :
      0 < (prescale.toNat + 1) * (counter.toNat + 1) * (10 ^ 12 / clk) / 1000 := by
    have ticks : 1000 ≤ 10 ^ 12 / clk := (Nat.le_div_iff_mul_le above).mpr (by omega)
    have cycles : 1 ≤ (prescale.toNat + 1) * (counter.toNat + 1) := Nat.mul_pos (by omega) (by omega)
    exact Nat.div_pos (Nat.mul_le_mul cycles ticks) (by decide)
  constructor
  · intro trip
    by_cases producible : PwmProducible clk period
    · obtain ⟨⟨-, -, ok⟩, ⟨-, -, cmpFits⟩, served⟩ := trip.2 producible
      have above : 0 < clk := by
        by_contra zero
        have least := producible.1
        rw [show clk = 0 by omega, Nat.mul_zero] at least
        omega
      have fits := pwmReal_fits tick few small ok
      rw [pwmReal_eq above tick few small part fits, pure_def] at served
      exact ⟨cmpFits, second, producible.1, pulseFits, fits,
        (pwmServed_iff above some second (cycle above)).mp served⟩
    · exact absurd (trip.1 producible) (Int.lt_irrefl 0)
  · rintro ⟨cmpFits, kept⟩
    have above : 0 < clk := by
      by_contra zero
      have least := kept.cycle
      rw [show clk = 0 by omega, Nat.mul_zero] at least
      omega
    refine ⟨fun impossible => absurd ⟨kept.cycle, longest⟩ impossible, fun _ => ?_⟩
    rw [pwmReal_eq above tick few small part kept.cycles_fit, pure_def]
    exact ⟨⟨rfl, rfl, rfl⟩, ⟨few, small, cmpFits⟩,
      (pwmServed_iff above some second (cycle above)).mpr kept.rounds⟩

theorem pwmRoundTrip_chosen_iff {p n on : Nat} (some : 0 < period) (second : period ≤ 10 ^ 9)
    (slow : clk ≤ 180000000) (tick : 10 ^ 12 / clk < 2 ^ 32) (pulseFits : pulse * 100 < 2 ^ 32)
    (least : 1 ≤ p) (few : p ≤ 4096) (least' : 1 ≤ n) (small : n ≤ 65536) (part : on ≤ n) :
    PwmRoundTrip clk period pulse 0 true (BitVec.ofNat 32 (p - 1)) (BitVec.ofNat 32 (n - 1))
        (BitVec.ofNat 32 on) (pwmReal clk (BitVec.ofNat 32 (p - 1)).toNat
          (BitVec.ofNat 32 (n - 1)).toNat (BitVec.ofNat 32 on).toNat) ↔
      on < 2 ^ 16 ∧ PwmKept clk period pulse p (p * n) (p * on) := by
  have prescaler : (BitVec.ofNat 32 (p - 1)).toNat + 1 = p := by
    rw [ofNat_toNat_of_lt (by omega), Nat.sub_add_cancel least]
  have counter : (BitVec.ofNat 32 (n - 1)).toNat + 1 = n := by
    rw [ofNat_toNat_of_lt (by omega), Nat.sub_add_cancel least']
  have cmp : (BitVec.ofNat 32 on).toNat = on := ofNat_toNat_of_lt (by omega)
  refine (pwmRoundTrip_iff some second slow tick pulseFits (by omega) (by omega) (by omega)).trans ?_
  rw [prescaler, counter, cmp]

end RoundTrip

section Clocks

variable (clocks : TimerClocks) (timer : Fin 12)

theorem clkGetSysclk1Freq_cases :
    clkGetSysclk1Freq clocks = 24000000 ∨ clkGetSysclk1Freq clocks = 180000000 := by
  unfold clkGetSysclk1Freq
  split
  · exact .inl rfl
  · exact .inr rfl

theorem timerGetModuleClock_le :
    (timerGetModuleClock clocks timer).toNat ≤ (clkGetSysclk1Freq clocks).toNat := by
  have least : 24000000 ≤ (clkGetSysclk1Freq clocks).toNat := by
    rcases clkGetSysclk1Freq_cases clocks with hxt | pll
    · rw [hxt]
      decide
    · rw [pll]
      decide
  unfold timerGetModuleClock
  split
  · exact le_rfl
  · refine Nat.le_trans ?_ least
    generalize clocks.sel timer = sel
    revert sel
    decide

theorem clkGetSysclk1Freq_tick : 10 ^ 12 / (clkGetSysclk1Freq clocks).toNat < 2 ^ 32 := by
  rcases clkGetSysclk1Freq_cases clocks with hxt | pll
  · rw [hxt]
    decide
  · rw [pll]
    decide

theorem timerGetModuleClock_tick : 10 ^ 12 / (timerGetModuleClock clocks timer).toNat < 2 ^ 32 := by
  unfold timerGetModuleClock
  split
  · exact clkGetSysclk1Freq_tick clocks
  · generalize clocks.sel timer = sel
    revert sel
    decide

theorem clkGetSysclk1Freq_le : (clkGetSysclk1Freq clocks).toNat ≤ 180000000 := by
  rcases clkGetSysclk1Freq_cases clocks with hxt | pll
  · rw [hxt]
    decide
  · rw [pll]
    decide

end Clocks

theorem div_freq_pos {clk period : Nat} (some : 0 < period) (second : period ≤ 10 ^ 9)
    (cycle : 10 ^ 9 ≤ period * clk) : 0 < clk / (10 ^ 9 / period) :=
  Nat.div_pos (Nat.div_le_of_le_mul cycle) (Nat.div_pos second some)

section Duty

variable {period pulse : Nat}

theorem duty_le (share : pulse ≤ period) : pulse * 100 / period ≤ 100 :=
  Nat.div_le_of_le_mul (Nat.mul_le_mul_right 100 share)

theorem on_le (share : pulse ≤ period) (n : Nat) : pulse * 100 / period * n / 100 ≤ n :=
  Nat.div_le_of_le_mul (Nat.mul_le_mul_right n (duty_le share))

end Duty

section Tpwm

variable {clocks : TimerClocks} {period pulse : U32} {regs : TpwmRegs}

theorem nuTpwmSet_ret (some : period ≠ 0) : (nuTpwmSet clocks period pulse regs).val.1 = 0 := by
  rw [nuTpwmSet, if_neg some]
  rfl

theorem tpwmConfig_zero (clk duty : Nat) :
    (tpwmConfigOutputFreqAndDuty clk 0 duty regs).ok = false := by
  have first : (prescalerLoop (fun p => quot (clk / p) 0) 0x10000 (4095 + 1) 1).ok = false := by
    rw [prescalerLoop]
    exact quot_zero_lost rfl
  rw [tpwmConfigOutputFreqAndDuty, bind_def, first, Bool.false_and]

theorem nuTpwmSet_lost (some : period ≠ 0) (lost : ¬(pulse.toNat * 100 < 2 ^ 32 ∧
      0 < 10 ^ 9 / period.toNat ∧ 0 < (clkGetSysclk1Freq clocks).toNat / (10 ^ 9 / period.toNat))) :
    (nuTpwmSet clocks period pulse regs).ok = false := by
  rw [nuTpwmSet, if_neg some, Bool.eq_false_iff]
  intro ok
  rw [ok_quot_bind, ok_fit_bind, ok_quot_bind, bind_def] at ok
  obtain ⟨-, pulseFits, -, ok⟩ := ok
  have config := (Bool.and_eq_true_iff.mp ok).1
  rcases Nat.eq_zero_or_pos (10 ^ 9 / period.toNat) with zero | above
  · rw [zero, tpwmConfig_zero] at config
    exact Bool.noConfusion config
  · rcases Nat.eq_zero_or_pos ((clkGetSysclk1Freq clocks).toNat / (10 ^ 9 / period.toNat)) with
      missed | reached
    · rw [tpwm_lost regs above missed] at config
      exact Bool.noConfusion config
    · exact lost ⟨pulseFits, above, reached⟩

theorem nuTpwmSet_eq (some : period ≠ 0) (share : pulse.toNat ≤ period.toNat)
    (pulseFits : pulse.toNat * 100 < 2 ^ 32) {f p n : Nat} (freq : 10 ^ 9 / period.toNat = f)
    (above : 0 < f) (reached : 0 < (clkGetSysclk1Freq clocks).toNat / f)
    (choice : tpwmChoice ((clkGetSysclk1Freq clocks).toNat / f) = (p, n)) :
    (1 ≤ p ∧ p ≤ 4096) ∧ (1 ≤ n ∧ n ≤ 65536) ∧
    ∃ pwmctl, nuTpwmSet clocks period pulse regs = pure (0, ⟨pwmctl, BitVec.ofNat 32 (p - 1),
      BitVec.ofNat 32 (n - 1), BitVec.ofNat 32 (pulse.toNat * 100 / period.toNat * n / 100)⟩) := by
  have somePos : 0 < period.toNat := BitVec.toNat_pos_of_ne_zero some
  have slow := clkGetSysclk1Freq_le clocks
  obtain ⟨least, most⟩ := firstPrescaler_period reached (show 0 < 65536 by decide)
  have fewCycles := Nat.div_le_self (clkGetSysclk1Freq clocks).toNat f
  obtain ⟨first, own⟩ := Prod.mk.inj choice
  have first' : firstPrescaler ((clkGetSysclk1Freq clocks).toNat / f) 65536 = p := first
  rw [first] at own
  rw [first'] at least most
  have few : p ≤ 4096 := by omega
  obtain ⟨pwmctl, run⟩ := tpwm_found regs first'.symm rfl above (duty_le share) few least most
  refine ⟨⟨by omega, few⟩, own ▸ ⟨least, most⟩, pwmctl, ?_⟩
  rw [nuTpwmSet, if_neg some, quot_of_pos somePos, pure_bind, fit_of_lt pulseFits, pure_bind,
    quot_of_pos somePos, pure_bind, freq, run, pure_bind, own]

end Tpwm

theorem tpwmRoundTrip_iff (clocks : TimerClocks) (timer : Fin 12) {period pulse : U32}
    (some : period ≠ 0) (share : pulse ≤ period) (regs : TpwmRegs) :
    TpwmRoundTrip clocks timer period pulse regs ↔
      TpwmKept clocks timer period.toNat pulse.toNat := by
  have somePos : 0 < period.toNat := BitVec.toNat_pos_of_ne_zero some
  have faster := timerGetModuleClock_le clocks timer
  have slow := clkGetSysclk1Freq_le clocks
  unfold TpwmRoundTrip TpwmKept
  by_cases served : pulse.toNat * 100 < 2 ^ 32 ∧ 0 < 10 ^ 9 / period.toNat ∧
      0 < (clkGetSysclk1Freq clocks).toNat / (10 ^ 9 / period.toNat)
  · obtain ⟨pulseFits, above, reached⟩ := served
    obtain ⟨p, n, choice⟩ : ∃ p n, tpwmChoice ((clkGetSysclk1Freq clocks).toNat /
      (10 ^ 9 / period.toNat)) = (p, n) := ⟨_, _, rfl⟩
    obtain ⟨⟨least, few⟩, ⟨least', small⟩, pwmctl, run⟩ :=
      @nuTpwmSet_eq clocks period pulse regs some share pulseFits _ p n rfl above reached choice
    have second : period.toNat ≤ 10 ^ 9 := (Nat.div_pos_iff.mp above).2
    have part := on_le share n
    dsimp only
    rw [run, choice, pure_def]
    exact pwmRoundTrip_chosen_iff somePos second (Nat.le_trans faster slow)
      (timerGetModuleClock_tick clocks timer) pulseFits least few least' small part
  · refine iff_of_false ?_ ?_
    · dsimp only
      rw [nuTpwmSet_ret some, nuTpwmSet_lost some served]
      exact not_pwmRoundTrip_of_lost
    · rintro ⟨-, kept⟩
      have cycle : 10 ^ 9 ≤ period.toNat * (clkGetSysclk1Freq clocks).toNat :=
        Nat.le_trans kept.cycle (Nat.mul_le_mul_left _ faster)
      exact served ⟨kept.pulse_fits, Nat.div_pos kept.second somePos,
        div_freq_pos somePos kept.second cycle⟩

section Epwm

variable {clk : Nat} {channel : Fin 6} {period pulse : U32}

theorem epwmRescalePair_own {preprescaler : Nat} {regs : EpwmRegs}
    (le : preprescaler ≤ (regs.clkpsc (epwmPair channel)).toNat) :
    (epwmRescalePair preprescaler channel regs).val.clkpsc = regs.clkpsc ∧
      (epwmRescalePair preprescaler channel regs).val.period channel = regs.period channel ∧
      (epwmRescalePair preprescaler channel regs).val.cmpdat channel = regs.cmpdat channel := by
  have other := (epwmChannelPair_ne channel).symm
  unfold epwmRescalePair
  dsimp only
  split_ifs with used grown shrunk
  · rw [bind_def, bind_def, bind_def, pure_def]
    exact ⟨rfl, Function.update_of_ne other .., Function.update_of_ne other ..⟩
  · omega
  · exact ⟨rfl, rfl, rfl⟩
  · exact ⟨rfl, rfl, rfl⟩

theorem nuEpwmSet_lost {regs : EpwmRegs} (some : period ≠ 0) (lost : ¬(pulse.toNat * 100 < 2 ^ 32 ∧
      0 < 10 ^ 9 / period.toNat ∧ 0 < clk / (10 ^ 9 / period.toNat))) :
    (nuEpwmSet clk channel period pulse regs).ok = false := by
  have giga : 1000000000 = 10 ^ 9 := rfl
  rw [nuEpwmSet, if_neg some, giga, Bool.eq_false_iff]
  intro ok
  rw [ok_quot_bind, ok_fit_bind, ok_quot_bind, bind_def] at ok
  obtain ⟨-, pulseFits, -, ok⟩ := ok
  have config := (Bool.and_eq_true_iff.mp ok).1
  rcases Nat.eq_zero_or_pos (10 ^ 9 / period.toNat) with zero | above
  · rw [zero, epwmConfigOutputChannel, quot_zero_lost rfl] at config
    exact Bool.noConfusion config
  · rcases Nat.eq_zero_or_pos (clk / (10 ^ 9 / period.toNat)) with missed | reached
    · rw [epwm_lost channel regs above missed] at config
      exact Bool.noConfusion config
    · exact lost ⟨pulseFits, above, reached⟩

theorem epwmConfig_run {f duty p n : Nat} (above : 0 < f) (reached : 0 < clk / f) (share : duty ≤ 100)
    (choice : epwmChoice (clk / f) = (p, n)) (regs : EpwmRegs) :
    ∃ i configured, epwmConfigOutputChannel clk channel f duty regs = pure (i, configured) ∧
      configured.clkpsc = Function.update regs.clkpsc (epwmPair channel) (BitVec.ofNat 32 (p - 1)) ∧
      configured.period = Function.update regs.period channel (BitVec.ofNat 32 (n - 1)) ∧
      configured.cmpdat = Function.update regs.cmpdat channel (BitVec.ofNat 32 (duty * n / 100)) := by
  obtain ⟨least, few, least', small⟩ := epwmChoice_bounds reached
  obtain ⟨ctl1, wgctl0, wgctl1, written⟩ := @epwmConfig_val clk f duty channel above reached regs
  rw [choice] at least few least' small written
  dsimp only at least few least' small written
  have product : duty * n ≤ 100 * 65535 := Nat.mul_le_mul share small
  obtain ⟨configured, run, -⟩ := epwm_run channel regs above share
    ((epwmChoice_given (clk / f)).trans choice) least few least' small
  rw [Nat.mod_eq_of_lt (by omega), run, pure_def] at written
  dsimp only at written
  exact ⟨_, configured, run, by rw [written], by rw [written], by rw [written]⟩

theorem fits_of_update {registers : Fin 6 → U32} {value : Nat} (small : value < 2 ^ 16)
    (fits : ∀ i, (registers i).toNat < 2 ^ 16) (i : Fin 6) :
    (Function.update registers channel (BitVec.ofNat 32 value) i).toNat < 2 ^ 16 := by
  by_cases here : i = channel
  · rw [here, Function.update_self, ofNat_toNat_of_lt (by omega)]
    exact small
  · rw [Function.update_of_ne here]
    exact fits i

theorem nuEpwmSet_served (regs : EpwmState) (some : period ≠ 0) (share : pulse.toNat ≤ period.toNat)
    (pulseFits : pulse.toNat * 100 < 2 ^ 32) {f p n on : Nat} (freq : 10 ^ 9 / period.toNat = f)
    (above : 0 < f) (reached : 0 < clk / f) (choice : epwmChoice (clk / f) = (p, n))
    (own : pulse.toNat * 100 / period.toNat * n / 100 = on) :
    ∃ after, nuEpwmSet clk channel period pulse regs.toEpwmRegs = pure (0, after) ∧
      after.clkpsc (epwmPair channel) = BitVec.ofNat 32 (p - 1) ∧
      ((regs.clkpsc (epwmPair channel)).toNat + 1 ≤ p →
        after.period channel = BitVec.ofNat 32 (n - 1) ∧ after.cmpdat channel = BitVec.ofNat 32 on) ∧
      (p < (regs.clkpsc (epwmPair channel)).toNat + 1 →
        after.period channel = BitVec.ofNat 32 (n * p / ((regs.clkpsc (epwmPair channel)).toNat + 1)) ∧
        after.cmpdat channel =
          BitVec.ofNat 32 (on * p / ((regs.clkpsc (epwmPair channel)).toNat + 1))) := by
  have somePos : 0 < period.toNat := BitVec.toNat_pos_of_ne_zero some
  obtain ⟨i, configured, run, clkpsc, periods, cmpdats⟩ :=
    epwmConfig_run above reached (duty_le share) choice regs.toEpwmRegs
  obtain ⟨least, few, least', small⟩ := epwmChoice_bounds reached
  rw [choice] at least few least' small
  dsimp only at least few least' small
  rw [own] at cmpdats
  have part : on ≤ n := own ▸ on_le share n
  have prescaler : (configured.clkpsc (epwmPair channel)).toNat = p - 1 := by
    rw [clkpsc, Function.update_self, ofNat_toNat_of_lt (by omega)]
  have counter : (configured.period channel).toNat = n - 1 := by
    rw [periods, Function.update_self, ofNat_toNat_of_lt (by omega)]
  have cmp : (configured.cmpdat channel).toNat = on := by
    rw [cmpdats, Function.update_self, ofNat_toNat_of_lt (by omega)]
  have before := regs.clkpsc_lt (epwmPair channel)
  have ok := @epwmRescalePair_ok (regs.clkpsc (epwmPair channel)).toNat channel configured before
    (by omega) (periods ▸ fits_of_update (by omega) regs.period_lt)
    (cmpdats ▸ fits_of_update (by omega) regs.cmpdat_lt)
  refine ⟨(epwmRescalePair (regs.clkpsc (epwmPair channel)).toNat channel configured).val, ?_, ?_⟩
  · have giga : 1000000000 = 10 ^ 9 := rfl
    rw [nuEpwmSet, if_neg some, giga]
    dsimp only
    rw [quot_of_pos somePos, pure_bind, fit_of_lt pulseFits, pure_bind, quot_of_pos somePos, pure_bind,
      freq, run, pure_bind, bind_def, ok]
    rfl
  rcases Nat.lt_or_ge p ((regs.clkpsc (epwmPair channel)).toNat + 1) with shrunk | grown
  · rw [epwmRescalePair_shrunk (by omega) before (by omega), prescaler, counter, cmp]
    dsimp only
    rw [clkpsc, Function.update_self, Function.update_self, Function.update_self,
      Nat.sub_add_cancel least, Nat.sub_add_cancel least']
    have product : on * p ≤ 65535 * 4095 := Nat.mul_le_mul (by omega) few
    rw [Nat.mod_eq_of_lt (by omega)]
    exact ⟨rfl, fun grown => by omega, fun _ => ⟨rfl, rfl⟩⟩
  · obtain ⟨clkpsc', period', cmpdat'⟩ := @epwmRescalePair_own channel
      (regs.clkpsc (epwmPair channel)).toNat configured (by omega)
    rw [clkpsc', period', cmpdat', clkpsc, periods, cmpdats, Function.update_self, Function.update_self,
      Function.update_self]
    exact ⟨rfl, fun _ => ⟨rfl, rfl⟩, fun shrunk => by omega⟩

end Epwm

theorem epwmRoundTrip_iff (clocks : TimerClocks) (channel : Fin 6) {period pulse : U32}
    (some : period ≠ 0) (share : pulse ≤ period) (regs : EpwmState) :
    EpwmRoundTrip clocks channel period pulse regs.toEpwmRegs ↔
      EpwmKept clocks channel period.toNat pulse.toNat regs.toEpwmRegs := by
  have somePos : 0 < period.toNat := BitVec.toNat_pos_of_ne_zero some
  have slow := clkGetSysclk1Freq_le clocks
  unfold EpwmRoundTrip EpwmKept
  by_cases served : pulse.toNat * 100 < 2 ^ 32 ∧ 0 < 10 ^ 9 / period.toNat ∧
      0 < (clkGetSysclk1Freq clocks).toNat / (10 ^ 9 / period.toNat)
  · obtain ⟨pulseFits, above, reached⟩ := served
    obtain ⟨p, n, choice⟩ : ∃ p n, epwmChoice ((clkGetSysclk1Freq clocks).toNat /
      (10 ^ 9 / period.toNat)) = (p, n) := ⟨_, _, rfl⟩
    obtain ⟨least, few, least', small⟩ := epwmChoice_bounds reached
    rw [choice] at least few least' small
    dsimp only at least few least' small
    obtain ⟨after, run, clkpsc, grown, shrunk⟩ := @nuEpwmSet_served (clkGetSysclk1Freq clocks).toNat
      channel period pulse regs some share pulseFits _ p n _ rfl above reached choice rfl
    have second : period.toNat ≤ 10 ^ 9 := (Nat.div_pos_iff.mp above).2
    have tick := clkGetSysclk1Freq_tick clocks
    have part := on_le share n
    dsimp only
    rw [run, choice, pure_def, nuEpwmGet]
    dsimp only
    rw [clkpsc]
    split_ifs with le
    · rw [(grown le).1, (grown le).2, pwmRoundTrip_chosen_iff somePos second slow tick pulseFits least
        (by omega) least' (by omega) part, and_iff_right (by omega)]
    · have rescaled : n * p / ((regs.clkpsc (epwmPair channel)).toNat + 1) ≤ n :=
        Nat.div_le_of_le_mul (by rw [Nat.mul_comm]; exact Nat.mul_le_mul_right n (by omega))
      have less : pulse.toNat * 100 / period.toNat * n / 100 * p /
          ((regs.clkpsc (epwmPair channel)).toNat + 1) ≤
          n * p / ((regs.clkpsc (epwmPair channel)).toNat + 1) :=
        Nat.div_le_div_right (Nat.mul_le_mul_right p part)
      have trip := @pwmRoundTrip_chosen_iff (clkGetSysclk1Freq clocks).toNat period.toNat pulse.toNat p
        (n * p / ((regs.clkpsc (epwmPair channel)).toNat + 1) + 1) _ somePos second slow tick pulseFits
        least (by omega) (Nat.succ_pos _) (by omega) (Nat.le_succ_of_le less)
      rw [Nat.add_sub_cancel] at trip
      rw [(shrunk (by omega)).1, (shrunk (by omega)).2, trip, and_iff_right (by omega)]
  · refine iff_of_false ?_ ?_
    · dsimp only
      rw [nuEpwmSet_val some, nuEpwmSet_lost some served]
      exact not_pwmRoundTrip_of_lost
    · dsimp only
      split_ifs
      · exact fun kept => served ⟨kept.pulse_fits, Nat.div_pos kept.second somePos,
          div_freq_pos somePos kept.second kept.cycle⟩
      · exact fun kept => served ⟨kept.pulse_fits, Nat.div_pos kept.second somePos,
          div_freq_pos somePos kept.second kept.cycle⟩

theorem pwm_set_get_iff (clocks : TimerClocks) (timer : Fin 12) (channel : Fin 6) {period pulse : U32}
    (some : period ≠ 0) (share : pulse ≤ period) (tpwm : TpwmRegs) (epwm : EpwmState) :
    (TpwmRoundTrip clocks timer period pulse tpwm ↔
        TpwmKept clocks timer period.toNat pulse.toNat) ∧
      (EpwmRoundTrip clocks channel period pulse epwm.toEpwmRegs ↔
        EpwmKept clocks channel period.toNat pulse.toNat epwm.toEpwmRegs) :=
  ⟨tpwmRoundTrip_iff clocks timer some share tpwm, epwmRoundTrip_iff clocks channel some share epwm⟩

def TimerClocks.pll : TimerClocks := ⟨fun _ => ⟨2, by decide⟩, false⟩

def EpwmState.reset : EpwmState where
  toEpwmRegs := EpwmRegs.reset
  clkpsc_lt := by decide
  period_lt := by decide
  cmpdat_lt := by decide

theorem pwm_set_get_iff_50k : TpwmRoundTrip .pll 0 20000 10000 .reset ∧
    EpwmRoundTrip .pll 0 20000 10000 EpwmState.reset.toEpwmRegs := by
  have both := @pwm_set_get_iff .pll 0 0 20000 10000 (by decide) (by decide) .reset .reset
  have rounds : PwmRounds 180000000 20000 10000 1 3600 1800 :=
    .of_exact (by decide) (by decide) (by decide) (by decide) (by decide) (by decide) (by decide)
  have kept : PwmKept 180000000 20000 10000 1 3600 1800 :=
    ⟨by decide, by decide, by decide, by decide, rounds⟩
  exact ⟨both.1.mpr ⟨by decide, kept⟩, both.2.mpr kept⟩

/-- 10 ms, with half of it: the picoseconds wrap on the way back. -/
theorem tenMilliseconds_wrapped :
    (nuEpwmGet .pll 0 (nuEpwmSet 180000000 0 10000000 5000000 .reset).val.2).val.1 = 1408954 ∧
      ¬TpwmRoundTrip .pll 0 10000000 5000000 .reset ∧
      ¬EpwmRoundTrip .pll 0 10000000 5000000 .reset := by
  refine ⟨by decide, fun trip => ?_, fun trip => ?_⟩
  · have ok := (trip.2 ⟨by decide, by decide⟩).1.2.2
    exact absurd ok (by decide)
  · have ok := (trip.2 ⟨by decide, by decide⟩).1.2.2
    exact absurd ok (by decide)

end NuMakerMA35
