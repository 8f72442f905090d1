import NuMakerMA35.Pwm

namespace NuMakerMA35

open Checked

/-- The loop of `EPWM_ConfigCaptureChannel` from a prescaler on: the first test sets the exit flag at
the largest prescaler, the second sets it anew. -/
def captureLoop (clockSrc unitTimeNsec : Nat) : Nat → Nat → Nat → Checked (Nat × Nat)
  | 0, prescale, nearest => pure (prescale, nearest)
  | turns + 1, prescale, _ => do
    let product ← fit 32 (1000000 * prescale)
    let nearest ← quot product clockSrc
    let exit ← (if nearest < unitTimeNsec then do
        let _exit := decide (prescale = 0x1000)
        let next ← fit 32 (prescale + 1)
        let next ← fit 32 (1000000 * next)
        let here ← fit 32 (nearest * clockSrc)
        pure (decide (¬next > here))
      else pure true)
    if exit then pure (prescale, nearest)
    else captureLoop clockSrc unitTimeNsec turns (prescale + 1) nearest

def epwmConfigCaptureChannel (pclk0 : Nat) (channel : Fin 6) (unitTimeNsec : Nat) (regs : EpwmRegs) :
    Checked (Nat × EpwmRegs) := do
  let (prescale, nearest) ← captureLoop (pclk0 / 1000) unitTimeNsec 0x1000 1 0
  let prescale ← less 32 prescale 1
  let shift := channel.val * 2
  let ctl1 := regs.ctl1 &&& ~~~(epwmCnttype0Mask <<< shift) ||| (1 : U32) <<< shift
  let ctl1 := ctl1 &&& ~~~((1 : U32) <<< epwmCntmode0Pos <<< channel.val)
  pure (nearest, { regs with
    ctl1 := ctl1
    clkpsc := Function.update regs.clkpsc (epwmPair channel) (BitVec.ofNat 32 prescale)
    period := Function.update regs.period channel 0xFFFF })

/-- What a capture channel owes: the prescaler fits into its field, the unit time is the tick of that
prescaler up to rounding, and no other prescaler's tick is nearer to the request. -/
structure CaptureLaw (clk unit prescaler ret : Nat) : Prop where
  prescaler_fits : prescaler < 2 ^ 12
  ret_below : ret * clk < 10 ^ 9 * (prescaler + 1) + clk
  ret_above : 10 ^ 9 * (prescaler + 1) < ret * clk + clk
  nearest : ∀ p, 1 ≤ p → p ≤ 4096 →
    ((10 ^ 9 * (prescaler + 1) : Nat) - (unit * clk : Nat) : Int).natAbs ≤
      ((10 ^ 9 * p : Nat) - (unit * clk : Nat) : Int).natAbs

def EpwmCaptureLaw (pclk0 : U32) (channel : Fin 6) (unit : U32) (regs : EpwmRegs) : Prop :=
  let done := epwmConfigCaptureChannel pclk0.toNat channel unit.toNat regs
  done.ok = true ∧ CaptureLaw pclk0.toNat unit.toNat (done.val.2.clkpsc (epwmPair channel)).toNat
    done.val.1

/-- The prescaler whose tick is the request rounded up, by a clock in whole kilohertz. -/
def capturePrescaler (clk unit : Nat) : Nat := max 1 ((unit * (clk / 1000) + 999999) / 1000000)

/-- The clock has a kilohertz, the request's prescaler fits, what the clock loses by rounding does not
show in the unit time, and the request is in the upper half of its step: neither neighbour is nearer. -/
def CaptureReaches (clk unit : Nat) : Prop :=
  let p := capturePrescaler clk unit
  1000 ≤ clk ∧ unit * (clk / 1000) ≤ 4096 * 10 ^ 6 ∧
    10 ^ 6 * p / (clk / 1000) * clk < 10 ^ 9 * p + clk ∧
    (p = 1 ∨ 10 ^ 9 * (2 * p - 1) ≤ 2 * (unit * clk)) ∧
    (p = 4096 ∨ 2 * (unit * clk) ≤ 10 ^ 9 * (2 * p + 1))

theorem nearest_iff {p x : Nat} (least : 1 ≤ p) (most : p ≤ 4096) :
    (∀ p', 1 ≤ p' → p' ≤ 4096 →
      ((10 ^ 9 * p : Nat) - (x : Nat) : Int).natAbs ≤ ((10 ^ 9 * p' : Nat) - (x : Nat) : Int).natAbs) ↔
      (p = 1 ∨ 10 ^ 9 * (2 * p - 1) ≤ 2 * x) ∧ (p = 4096 ∨ 2 * x ≤ 10 ^ 9 * (2 * p + 1)) := by
  constructor
  · intro nearest
    constructor
    · by_cases first : p = 1
      · exact .inl first
      · have := nearest (p - 1) (by omega) (by omega)
        omega
    · by_cases last : p = 4096
      · exact .inl last
      · have := nearest (p + 1) (by omega) (by omega)
        omega
  · rintro ⟨lower, upper⟩ p' least' most'
    omega

theorem captureLoop_eq {khz : Nat} (unit : Nat) (above : 0 < khz) (turns p last : Nat)
    (some : 1 ≤ p) (sum : p + turns = 4097) (start : p ≤ max 1 ((unit * khz + 999999) / 1000000)) :
    ∃ left, captureLoop khz unit turns p last = pure
      (if max 1 ((unit * khz + 999999) / 1000000) ≤ 4096 then
        (max 1 ((unit * khz + 999999) / 1000000),
          1000000 * max 1 ((unit * khz + 999999) / 1000000) / khz)
      else (4097, left)) := by
  induction turns generalizing p last with
  | zero =>
    refine ⟨last, ?_⟩
    rw [captureLoop, if_neg (by omega), show p = 4097 by omega]
  | succ turns ih =>
    have down : 1000000 * p / khz * khz ≤ 1000000 * p := Nat.div_mul_le_self _ _
    have short : 1000000 * p / khz < unit ↔ 1000000 * p < unit * khz := Nat.div_lt_iff_lt_mul above
    rw [captureLoop, fit_of_lt (by omega), pure_bind, quot_of_pos above, pure_bind]
    by_cases less : 1000000 * p / khz < unit
    · rw [if_pos less, fit_of_lt (by omega), pure_bind, fit_of_lt (by omega), pure_bind,
        fit_of_lt (by omega), pure_bind, pure_bind, decide_eq_false (by omega)]
      exact ih _ _ (by omega) (by omega) (by omega)
    · have here : max 1 ((unit * khz + 999999) / 1000000) = p := by omega
      rw [if_neg less, pure_bind, if_pos rfl, here]
      exact ⟨0, by rw [if_pos (by omega)]⟩

theorem epwmCapture_lost {clk unit : Nat} (slow : clk / 1000 = 0) (channel : Fin 6) (regs : EpwmRegs) :
    (epwmConfigCaptureChannel clk channel unit regs).ok = false := by
  have lost : (captureLoop 0 unit 0x1000 1 0).ok = false := by
    rw [captureLoop]
    exact bind_lost (quot_zero_lost rfl)
  unfold epwmConfigCaptureChannel
  rw [slow, bind_def, lost, Bool.false_and]

theorem epwmCapture_run {clk : Nat} (unit : Nat) (above : 0 < clk / 1000) (channel : Fin 6)
    (regs : EpwmRegs) : ∃ left after,
    epwmConfigCaptureChannel clk channel unit regs = pure
      (if capturePrescaler clk unit ≤ 4096 then 1000000 * capturePrescaler clk unit / (clk / 1000)
        else left, after) ∧
    (after.clkpsc (epwmPair channel)).toNat =
      if capturePrescaler clk unit ≤ 4096 then capturePrescaler clk unit - 1 else 4096 := by
  obtain ⟨left, run⟩ := captureLoop_eq unit above 0x1000 1 0 (by omega) (by omega)
    (by omega)
  have some : 1 ≤ capturePrescaler clk unit := Nat.le_max_left _ _
  refine ⟨left, ?_⟩
  unfold epwmConfigCaptureChannel
  rw [run]
  by_cases few : capturePrescaler clk unit ≤ 4096
  · rw [← capturePrescaler, if_pos few, if_pos few, if_pos few, pure_bind]
    simp only
    rw [less_of_le some (by omega), pure_bind]
    refine ⟨_, rfl, ?_⟩
    simp only [Function.update_self]
    exact ofNat_toNat_of_lt (by omega)
  · rw [← capturePrescaler, if_neg few, if_neg few, if_neg few, pure_bind]
    simp only
    rw [less_of_le (by omega) (by omega), pure_bind]
    refine ⟨_, rfl, ?_⟩
    simp only [Function.update_self]
    exact ofNat_toNat_of_lt (by omega)

/-- The law holds of the code just where the request's prescaler, rounded up, is the right one. -/
theorem epwm_capture_iff (pclk0 : U32) (channel : Fin 6) (unit : U32) (regs : EpwmRegs) :
    EpwmCaptureLaw pclk0 channel unit regs ↔ CaptureReaches pclk0.toNat unit.toNat := by
  unfold EpwmCaptureLaw CaptureReaches
  generalize pclk0.toNat = clk
  generalize unit.toNat = time
  by_cases slow : clk / 1000 = 0
  · refine iff_of_false (fun law => ?_) (by omega)
    exact Bool.noConfusion (law.1.symm.trans (epwmCapture_lost slow channel regs))
  · obtain ⟨left, after, run, clkpsc⟩ := epwmCapture_run time (by omega : 0 < clk / 1000)
      channel regs
    have some : 1 ≤ capturePrescaler clk time := Nat.le_max_left _ _
    have whole : capturePrescaler clk time ≤ 4096 ↔ time * (clk / 1000) ≤ 4096 * 10 ^ 6 := by
      unfold capturePrescaler
      omega
    rw [run]
    simp only [pure_def, true_and, clkpsc]
    by_cases few : capturePrescaler clk time ≤ 4096
    · rw [if_pos few, if_pos few]
      generalize capturePrescaler clk time = p at *
      have next : p - 1 + 1 = p := Nat.sub_add_cancel some
      -- rounding the clock down only makes the unit time longer
      have above : 10 ^ 9 * p < 1000000 * p / (clk / 1000) * clk + clk := by
        have quotient := Nat.lt_mul_div_succ (1000000 * p) (show 0 < clk / 1000 by omega)
        have kilohertz := Nat.mul_le_mul_right (1000000 * p / (clk / 1000) + 1)
          (Nat.div_mul_le_self clk 1000)
        rw [Nat.mul_comm (clk / 1000) 1000, Nat.mul_assoc, Nat.mul_succ, Nat.mul_comm clk,
          Nat.add_mul, Nat.one_mul] at kilohertz
        rw [Nat.mul_succ] at quotient
        omega
      constructor
      · intro law
        have neighbours := law.nearest
        have below := law.ret_below
        rw [next] at neighbours below
        obtain ⟨lower, upper⟩ := (nearest_iff some few).mp neighbours
        exact ⟨by omega, whole.mp few, below, lower, upper⟩
      · rintro ⟨-, -, below, lower, upper⟩
        refine ⟨by omega, by rw [next]; exact below, by rw [next]; exact above, ?_⟩
        rw [next]
        exact (nearest_iff some few).mpr ⟨lower, upper⟩
    · rw [if_neg few]
      refine iff_of_false (fun law => ?_) fun reaches => few (whole.mpr reaches.2.1)
      have fits := law.prescaler_fits
      omega

/-- At 180 MHz a unit time of 12 ns: the tick of 11.1 ns is nearer than that of 16.7 ns, which the loop
goes on to. -/
theorem capture_not_nearest :
    (epwmConfigCaptureChannel 180000000 0 12 .reset).val.1 = 16 ∧
      ((epwmConfigCaptureChannel 180000000 0 12 .reset).val.2.clkpsc 0).toNat = 2 ∧
      ¬EpwmCaptureLaw 180000000 0 12 .reset := by
  have prescaler : ((epwmConfigCaptureChannel 180000000 0 12 .reset).val.2.clkpsc 0).toNat = 2 := by
    decide
  refine ⟨by decide, prescaler, fun law => ?_⟩
  have nearer := law.2.nearest 2 (by decide) (by decide)
  rw [show ((epwmConfigCaptureChannel (180000000 : U32).toNat 0 (12 : U32).toNat .reset).val.2.clkpsc
    (epwmPair 0)).toNat = 2 from prescaler] at nearer
  exact absurd nearer (by decide)

end NuMakerMA35
