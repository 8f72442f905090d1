import NuMakerMA35.Pwm

namespace NuMakerMA35

open Checked

structure EpwmState extends EpwmRegs where
  clkpsc_lt : ∀ pair, (clkpsc pair).toNat < 2 ^ 12
  period_lt : ∀ channel, (period channel).toNat < 2 ^ 16
  cmpdat_lt : ∀ channel, (cmpdat channel).toNat < 2 ^ 16

def epwmChannelPair (channel : Fin 6) : Fin 6 :=
  if even : channel.val % 2 = 0 then ⟨channel.val + 1, by omega⟩ else ⟨channel.val - 1, by omega⟩

def epwmRescale (value prescaler prescaler' : Nat) : Checked Nat := do
  let product ← fit 32 (value * (prescaler + 1))
  quot product (prescaler' + 1)

/-- What `nu_epwm_set` does after the configuration, with the prescaler from before. -/
def epwmRescalePair (preprescaler : Nat) (channel : Fin 6) (regs : EpwmRegs) : Checked EpwmRegs :=
  let pair := epwmChannelPair channel
  let prescaler := (regs.clkpsc (epwmPair channel)).toNat
  if preprescaler ≠ 0 ∨ regs.period pair ≠ 0 ∨ regs.cmpdat pair ≠ 0 then
    if preprescaler < prescaler then do
      let next ← fit 32 ((regs.period pair).toNat + 1)
      let cnr ← epwmRescale next preprescaler prescaler
      let cmr ← epwmRescale (regs.cmpdat pair).toNat preprescaler prescaler
      pure { regs with
        period := Function.update regs.period pair (BitVec.ofNat 32 cnr)
        cmpdat := Function.update regs.cmpdat pair (BitVec.ofNat 32 cmr) }
    else if preprescaler > prescaler then do
      let next ← fit 32 ((regs.period channel).toNat + 1)
      let cnr ← epwmRescale next prescaler preprescaler
      let cmr ← epwmRescale (regs.cmpdat channel).toNat prescaler preprescaler
      pure { regs with
        period := Function.update regs.period channel (BitVec.ofNat 32 cnr)
        cmpdat := Function.update regs.cmpdat channel (BitVec.ofNat 32 cmr) }
    else pure regs
  else pure regs

def nuEpwmSet (clockSrc : Nat) (channel : Fin 6) (period pulse : U32) (regs : EpwmRegs) :
    Checked (Int × EpwmRegs) :=
  if period = 0 then pure (-1, regs)
  else do
    let preprescaler := (regs.clkpsc (epwmPair channel)).toNat
    let freq ← quot 1000000000 period.toNat
    let hundredfold ← fit 32 (pulse.toNat * 100)
    let dutycycle ← quot hundredfold period.toNat
    let (_, regs) ← epwmConfigOutputChannel clockSrc channel freq dutycycle regs
    let regs ← epwmRescalePair preprescaler channel regs
    pure (0, regs)

def EpwmRegs.periodCycles (regs : EpwmRegs) (channel : Fin 6) : Nat :=
  ((regs.clkpsc (epwmPair channel)).toNat + 1) * ((regs.period channel).toNat + 1)

def EpwmRegs.onCycles (regs : EpwmRegs) (channel : Fin 6) : Nat :=
  ((regs.clkpsc (epwmPair channel)).toNat + 1) * (regs.cmpdat channel).toNat

/-- A number is no further away than rounding to a multiple of `tick` gets. -/
def WithinTick (tick before after : Nat) : Prop := before < after + tick ∧ after < before + tick

/-- A channel has what was chosen for it, and the other one of the pair has its period and on-time but
for rounding to a tick. -/
def EpwmPairShared (channel : Fin 6) (regs chosen after : EpwmRegs) : Prop :=
  let pair := epwmChannelPair channel
  let tick := (after.clkpsc (epwmPair channel)).toNat + 1
  (after.clkpsc (epwmPair channel) = chosen.clkpsc (epwmPair channel) ∧
    after.period channel = chosen.period channel ∧ after.cmpdat channel = chosen.cmpdat channel) ∧
  WithinTick tick (regs.periodCycles pair) (after.periodCycles pair) ∧
  WithinTick tick (regs.onCycles pair) (after.onCycles pair)

/-- A period is refused and nothing changed; or no division is by zero, and the pair is shared. -/
def EpwmPairLaw (clockSrc : Nat) (channel : Fin 6) (period pulse : U32) (regs : EpwmRegs) : Prop :=
  let done := (nuEpwmSet clockSrc channel period pulse regs).val
  let freq := 1000000000 / period.toNat
  let chosen := (epwmConfigOutputChannel clockSrc channel freq
    (pulse.toNat * 100 % 2 ^ 32 / period.toNat) regs).val.2
  (done.1 < 0 ∧ done.2 = regs) ∨
    (done.1 = 0 ∧ (period ≠ 0 ∧ freq ≠ 0 ∧ clockSrc / freq ≠ 0) ∧
      EpwmPairShared channel regs chosen done.2)

/-- The prescaler and the period that are chosen for the cycles of a frequency. -/
def epwmChoice (q : Nat) : Nat × Nat :=
  if q / 65536 + 1 < 4095 then (q / 65536 + 1, q / (q / 65536 + 1)) else (4095, 65535)

/-- The period is zero; or it is at most a second, the frequency is not above the clock, and the
prescaler stays; or grows and does not divide the other channel's cycles; or shrinks so little that
neither the channel itself, whose duty is none, nor the other one is changed. -/
def EpwmPairKept (clockSrc : Nat) (channel : Fin 6) (period pulse : U32) (regs : EpwmRegs) : Prop :=
  let freq := 1000000000 / period.toNat
  let duty := pulse.toNat * 100 % 2 ^ 32 / period.toNat
  let (p, n) := epwmChoice (clockSrc / freq)
  let pair := epwmChannelPair channel
  let old := (regs.clkpsc (epwmPair channel)).toNat + 1
  period = 0 ∨ (0 < freq ∧ 0 < clockSrc / freq) ∧
    (old = p ∨ (old < p ∧ ¬p ∣ regs.periodCycles pair) ∨
      (p < old ∧ (n - 1) * old ≤ n * p ∧ duty * n % 2 ^ 32 < 100 ∧
        (old - p) * ((regs.period pair).toNat + 1) < p ∧ (old - p) * (regs.cmpdat pair).toNat < p))

section Choice

variable {clk freq duty q : Nat} {channel : Fin 6}

theorem epwmChoice_bounds (some : 0 < q) : 1 ≤ (epwmChoice q).1 ∧ (epwmChoice q).1 ≤ 4095 ∧
    1 ≤ (epwmChoice q).2 ∧ (epwmChoice q).2 ≤ 65535 := by
  rw [epwmChoice]
  split
  · obtain ⟨least, most⟩ := firstPrescaler_period some (show 0 < 65535 by decide)
    exact ⟨Nat.succ_pos _, Nat.le_of_lt ‹_›, least, most⟩
  · decide

theorem epwmChoice_given (q : Nat) : (if firstPrescaler q 65535 < 4095 then
    Option.some (firstPrescaler q 65535, q / firstPrescaler q 65535) else none).getD (0xFFF, 0xFFFF) =
      epwmChoice q := by
  have same : firstPrescaler q 65535 = q / 65536 + 1 := rfl
  rw [epwmChoice, same]
  split <;> rfl

theorem epwmConfig_val (above : 0 < freq) (some : 0 < clk / freq) (regs : EpwmRegs) :
    ∃ ctl1 wgctl0 wgctl1, (epwmConfigOutputChannel clk channel freq duty regs).val.2 =
      ⟨ctl1, Function.update regs.clkpsc (epwmPair channel)
          (BitVec.ofNat 32 ((epwmChoice (clk / freq)).1 - 1)),
        Function.update regs.period channel (BitVec.ofNat 32 ((epwmChoice (clk / freq)).2 - 1)),
        Function.update regs.cmpdat channel
          (BitVec.ofNat 32 (duty * (epwmChoice (clk / freq)).2 % 2 ^ 32 / 100)), wgctl0, wgctl1⟩ := by
  obtain ⟨least, most, least', most'⟩ := epwmChoice_bounds some
  have given := epwmChoice_given (clk / freq)
  generalize epwmChoice (clk / freq) = choice at given least most least' most'
  have product : choice.1 * choice.2 ≤ 4095 * 65535 := Nat.mul_le_mul most most'
  have positive : 0 < choice.1 * choice.2 := Nat.mul_pos least least'
  unfold epwmConfigOutputChannel
  rw [quot_of_pos above, pure_bind, prescalerLoop_eq (q := clk / freq) (fun _ => rfl) _ _ (by omega)
    (Nat.succ_pos _)]
  simp only [pure_bind, Nat.reduceSub, given]
  rw [fit_of_lt (by omega), pure_bind, quot_of_pos positive, pure_bind, less_of_le least (by omega),
    pure_bind, less_of_le least' (by omega), pure_bind, Nat.sub_add_cancel least',
    fit_of_lt (by omega), pure_bind]
  exact ⟨_, _, _, rfl⟩

end Choice

section Rescale

variable {P p N M : Nat}

theorem epwmRescale_eq (value prescaler prescaler' : Nat)
    (small : value * (prescaler + 1) < 2 ^ 32) :
    epwmRescale value prescaler prescaler' = pure (value * (prescaler + 1) / (prescaler' + 1)) := by
  rw [epwmRescale, fit_of_lt small, pure_bind, quot_of_pos (Nat.succ_pos _)]

theorem withinTick_period_iff (some : 0 < p) :
    WithinTick p (P * N) (p * (N * P / p + 1)) ↔ ¬p ∣ P * N := by
  have whole := Nat.div_add_mod (P * N) p
  have rest := Nat.mod_lt (P * N) some
  rw [WithinTick, Nat.mul_comm N P, Nat.mul_add, Nat.mul_one, Nat.dvd_iff_mod_eq_zero]
  omega

theorem withinTick_on (some : 0 < p) : WithinTick p (P * M) (p * (M * P / p)) := by
  have whole := Nat.div_add_mod (P * M) p
  have rest := Nat.mod_lt (P * M) some
  rw [WithinTick, Nat.mul_comm M P]
  omega

theorem withinTick_shorter_iff (less : p < P) : WithinTick p (P * N) (p * N) ↔ (P - p) * N < p := by
  have difference : (P - p) * N + p * N = P * N := by
    rw [← Nat.add_mul, Nat.sub_add_cancel (Nat.le_of_lt less)]
  rw [WithinTick]
  omega

theorem rescaled_eq_iff {c : Nat} (less : p < P) : c * p % 2 ^ 32 / P = c ↔ c = 0 := by
  constructor
  · intro same
    by_contra some
    have shorter : c * p / P < c := (Nat.div_lt_iff_lt_mul (by omega)).mpr
      (Nat.mul_lt_mul_of_pos_left less (Nat.pos_of_ne_zero some))
    have wrapped : c * p % 2 ^ 32 / P ≤ c * p / P := Nat.div_le_div_right (Nat.mod_le ..)
    omega
  · rintro rfl
    rw [Nat.zero_mul, Nat.zero_mod, Nat.zero_div]

theorem rescaledPeriod_eq_iff {n : Nat} (some : 1 ≤ n) (less : p < P) :
    n * p / P = n - 1 ↔ (n - 1) * P ≤ n * p := by
  have shorter : n * p < n * P := Nat.mul_lt_mul_of_pos_left less some
  have next : (n - 1) * P + P = n * P := by
    rw [← Nat.succ_mul, Nat.succ_eq_add_one, Nat.sub_add_cancel some]
  rw [Nat.div_eq_iff (by omega : 0 < P)]
  omega

end Rescale

section Pair

theorem epwmChannelPair_ne (channel : Fin 6) : epwmChannelPair channel ≠ channel := by
  revert channel
  decide

theorem epwmPair_epwmChannelPair (channel : Fin 6) :
    epwmPair (epwmChannelPair channel) = epwmPair channel := by
  revert channel
  decide

variable {clk preprescaler : Nat} {channel : Fin 6} {regs : EpwmRegs}

theorem epwmRescalePair_same (same : (regs.clkpsc (epwmPair channel)).toNat = preprescaler) :
    epwmRescalePair preprescaler channel regs = pure regs := by
  simp only [epwmRescalePair, same, Nat.lt_irrefl, if_false, ite_self]

theorem epwmRescalePair_unused (unused : ¬(preprescaler ≠ 0 ∨
      regs.period (epwmChannelPair channel) ≠ 0 ∨ regs.cmpdat (epwmChannelPair channel) ≠ 0)) :
    epwmRescalePair preprescaler channel regs = pure regs := by
  rw [epwmRescalePair, if_neg unused]

theorem epwmRescalePair_grown (used : preprescaler ≠ 0 ∨ regs.period (epwmChannelPair channel) ≠ 0 ∨
    regs.cmpdat (epwmChannelPair channel) ≠ 0)
    (grown : preprescaler < (regs.clkpsc (epwmPair channel)).toNat) (few : preprescaler < 4096)
    (period : (regs.period (epwmChannelPair channel)).toNat < 2 ^ 16)
    (cmpdat : (regs.cmpdat (epwmChannelPair channel)).toNat < 2 ^ 16) :
    epwmRescalePair preprescaler channel regs = pure
      { regs with
        period := Function.update regs.period (epwmChannelPair channel) (BitVec.ofNat 32
          (((regs.period (epwmChannelPair channel)).toNat + 1) * (preprescaler + 1) /
            ((regs.clkpsc (epwmPair channel)).toNat + 1)))
        cmpdat := Function.update regs.cmpdat (epwmChannelPair channel) (BitVec.ofNat 32
          ((regs.cmpdat (epwmChannelPair channel)).toNat * (preprescaler + 1) /
            ((regs.clkpsc (epwmPair channel)).toNat + 1))) } := by
  have next : ((regs.period (epwmChannelPair channel)).toNat + 1) * (preprescaler + 1) ≤
      65536 * 4096 := Nat.mul_le_mul (by omega) (by omega)
  have on : (regs.cmpdat (epwmChannelPair channel)).toNat * (preprescaler + 1) ≤ 65536 * 4096 :=
    Nat.mul_le_mul (by omega) (by omega)
  rw [epwmRescalePair, if_pos used, if_pos grown, fit_of_lt (by omega), pure_bind,
    epwmRescale_eq _ _ _ (by omega), pure_bind, epwmRescale_eq _ _ _ (by omega), pure_bind]

theorem epwmRescalePair_shrunk (shrunk : (regs.clkpsc (epwmPair channel)).toNat < preprescaler)
    (few : preprescaler < 4096) (period : (regs.period channel).toNat < 2 ^ 16) :
    (epwmRescalePair preprescaler channel regs).val =
      { regs with
        period := Function.update regs.period channel (BitVec.ofNat 32
          (((regs.period channel).toNat + 1) * ((regs.clkpsc (epwmPair channel)).toNat + 1) /
            (preprescaler + 1)))
        cmpdat := Function.update regs.cmpdat channel (BitVec.ofNat 32
          ((regs.cmpdat channel).toNat * ((regs.clkpsc (epwmPair channel)).toNat + 1) % 2 ^ 32 /
            (preprescaler + 1))) } := by
  have next : ((regs.period channel).toNat + 1) * ((regs.clkpsc (epwmPair channel)).toNat + 1) ≤
      65536 * 4096 := Nat.mul_le_mul (by omega) (by omega)
  have used : preprescaler ≠ 0 ∨ regs.period (epwmChannelPair channel) ≠ 0 ∨
    regs.cmpdat (epwmChannelPair channel) ≠ 0 := .inl (by omega)
  rw [epwmRescalePair, if_pos used, if_neg (by omega), if_pos shrunk, fit_of_lt (by omega), pure_bind,
    epwmRescale_eq _ _ _ (by omega), pure_bind]
  rfl

theorem epwmRescalePair_ok (few : preprescaler < 4096)
    (small : (regs.clkpsc (epwmPair channel)).toNat < 4096)
    (period : ∀ i, (regs.period i).toNat < 2 ^ 16) (cmpdat : ∀ i, (regs.cmpdat i).toNat < 2 ^ 16) :
    (epwmRescalePair preprescaler channel regs).ok = true := by
  have fits {value prescaler : Nat} (most : value ≤ 65536) (few : prescaler < 4096) :
      value * (prescaler + 1) < 2 ^ 32 :=
    Nat.lt_of_le_of_lt (Nat.mul_le_mul most (Nat.succ_le_of_lt few)) (by decide)
  unfold epwmRescalePair
  dsimp only
  split_ifs with used grown shrunk
  · have here := period (epwmChannelPair channel)
    have here' := cmpdat (epwmChannelPair channel)
    rw [fit_of_lt (by omega), pure_bind, epwmRescale_eq _ _ _ (fits (by omega) few), pure_bind,
      epwmRescale_eq _ _ _ (fits (by omega) few)]
    rfl
  · have here := period channel
    have here' := cmpdat channel
    rw [fit_of_lt (by omega), pure_bind, epwmRescale_eq _ _ _ (fits (by omega) small), pure_bind,
      epwmRescale_eq _ _ _ (fits (by omega) small)]
    rfl
  · rfl
  · rfl

end Pair

section Shared

variable {channel : Fin 6} {regs chosen : EpwmRegs}
  (period : chosen.period (epwmChannelPair channel) = regs.period (epwmChannelPair channel))
  (cmpdat : chosen.cmpdat (epwmChannelPair channel) = regs.cmpdat (epwmChannelPair channel))

include period cmpdat

theorem epwmPairShared_iff {after : EpwmRegs} (clkpsc : after.clkpsc = chosen.clkpsc)
    (otherPeriod : after.period (epwmChannelPair channel) = chosen.period (epwmChannelPair channel))
    (otherCmpdat : after.cmpdat (epwmChannelPair channel) = chosen.cmpdat (epwmChannelPair channel)) :
    EpwmPairShared channel regs chosen after ↔
      (after.period channel = chosen.period channel ∧ after.cmpdat channel = chosen.cmpdat channel) ∧
      WithinTick ((chosen.clkpsc (epwmPair channel)).toNat + 1)
        (((regs.clkpsc (epwmPair channel)).toNat + 1) *
          ((regs.period (epwmChannelPair channel)).toNat + 1))
        (((chosen.clkpsc (epwmPair channel)).toNat + 1) *
          ((regs.period (epwmChannelPair channel)).toNat + 1)) ∧
      WithinTick ((chosen.clkpsc (epwmPair channel)).toNat + 1)
        (((regs.clkpsc (epwmPair channel)).toNat + 1) * (regs.cmpdat (epwmChannelPair channel)).toNat)
        (((chosen.clkpsc (epwmPair channel)).toNat + 1) *
          (regs.cmpdat (epwmChannelPair channel)).toNat) := by
  unfold EpwmPairShared EpwmRegs.periodCycles EpwmRegs.onCycles
  dsimp only
  rw [epwmPair_epwmChannelPair, clkpsc, otherPeriod, otherCmpdat, period, cmpdat, eq_self, true_and]

theorem epwmPairShared_same (same : chosen.clkpsc (epwmPair channel) = regs.clkpsc (epwmPair channel)) :
    EpwmPairShared channel regs chosen
      (epwmRescalePair (regs.clkpsc (epwmPair channel)).toNat channel chosen).val := by
  rw [epwmRescalePair_same (congrArg _ same), pure_def,
    epwmPairShared_iff period cmpdat rfl rfl rfl, same]
  exact ⟨⟨rfl, rfl⟩, ⟨by omega, by omega⟩, by omega, by omega⟩

theorem epwmPairShared_grown_iff (few : (regs.clkpsc (epwmPair channel)).toNat < 2 ^ 12)
    (grown : (regs.clkpsc (epwmPair channel)).toNat < (chosen.clkpsc (epwmPair channel)).toNat)
    (periodSmall : (regs.period (epwmChannelPair channel)).toNat < 2 ^ 16)
    (cmpdatSmall : (regs.cmpdat (epwmChannelPair channel)).toNat < 2 ^ 16) :
    EpwmPairShared channel regs chosen
        (epwmRescalePair (regs.clkpsc (epwmPair channel)).toNat channel chosen).val ↔
      ¬((chosen.clkpsc (epwmPair channel)).toNat + 1) ∣
        regs.periodCycles (epwmChannelPair channel) := by
  by_cases used : (regs.clkpsc (epwmPair channel)).toNat ≠ 0 ∨
      chosen.period (epwmChannelPair channel) ≠ 0 ∨ chosen.cmpdat (epwmChannelPair channel) ≠ 0
  · rw [epwmRescalePair_grown used grown few (period ▸ periodSmall) (cmpdat ▸ cmpdatSmall), pure_def,
      period, cmpdat]
    unfold EpwmPairShared EpwmRegs.periodCycles EpwmRegs.onCycles
    simp only [Function.update_self, Function.update_of_ne (epwmChannelPair_ne channel).symm,
      epwmPair_epwmChannelPair, and_self, true_and]
    set P := (regs.clkpsc (epwmPair channel)).toNat + 1 with before
    set p := (chosen.clkpsc (epwmPair channel)).toNat + 1 with now
    have shorter {value : Nat} (small : value ≤ 65536) : value * P / p < 2 ^ 32 :=
      Nat.lt_of_le_of_lt (Nat.div_le_self ..)
        (Nat.lt_of_le_of_lt (Nat.mul_le_mul small (show P ≤ 4096 by omega)) (by decide))
    rw [ofNat_toNat_of_lt (shorter (by omega)), ofNat_toNat_of_lt (shorter (by omega)),
      withinTick_period_iff (Nat.succ_pos _), and_iff_left (withinTick_on (Nat.succ_pos _))]
  · have unused := used
    simp only [not_or, not_not] at unused
    obtain ⟨first, none, off⟩ := unused
    rw [epwmRescalePair_unused used, pure_def, epwmPairShared_iff period cmpdat rfl rfl rfl, ← period,
      ← cmpdat,
      none, off, EpwmRegs.periodCycles, epwmPair_epwmChannelPair, ← period, none, first]
    have zero : (0 : U32).toNat = 0 := rfl
    simp only [WithinTick, zero, Nat.zero_add, Nat.mul_one, Nat.mul_zero, Nat.dvd_one, and_self,
      true_and]
    omega

theorem epwmPairShared_shrunk_iff (few : (regs.clkpsc (epwmPair channel)).toNat < 2 ^ 12)
    (shrunk : (chosen.clkpsc (epwmPair channel)).toNat < (regs.clkpsc (epwmPair channel)).toNat)
    (periodSmall : (chosen.period channel).toNat < 2 ^ 16) :
    EpwmPairShared channel regs chosen
        (epwmRescalePair (regs.clkpsc (epwmPair channel)).toNat channel chosen).val ↔
      (chosen.period channel).toNat * ((regs.clkpsc (epwmPair channel)).toNat + 1) ≤
          ((chosen.period channel).toNat + 1) * ((chosen.clkpsc (epwmPair channel)).toNat + 1) ∧
        (chosen.cmpdat channel).toNat = 0 ∧
        ((regs.clkpsc (epwmPair channel)).toNat - (chosen.clkpsc (epwmPair channel)).toNat) *
            ((regs.period (epwmChannelPair channel)).toNat + 1) <
          (chosen.clkpsc (epwmPair channel)).toNat + 1 ∧
        ((regs.clkpsc (epwmPair channel)).toNat - (chosen.clkpsc (epwmPair channel)).toNat) *
            (regs.cmpdat (epwmChannelPair channel)).toNat <
          (chosen.clkpsc (epwmPair channel)).toNat + 1 := by
  rw [epwmRescalePair_shrunk shrunk few periodSmall]
  refine (epwmPairShared_iff period cmpdat ?_ (Function.update_of_ne (epwmChannelPair_ne channel) ..)
    (Function.update_of_ne (epwmChannelPair_ne channel) ..)).trans ?_
  · rfl
  simp only [Function.update_self, BitVec.toNat_eq]
  set P := (regs.clkpsc (epwmPair channel)).toNat + 1 with before
  set p := (chosen.clkpsc (epwmPair channel)).toNat + 1 with now
  have less : p < P := by omega
  have difference : (regs.clkpsc (epwmPair channel)).toNat - (chosen.clkpsc (epwmPair channel)).toNat =
    P - p := by omega
  have shorter {value : Nat} (small : value < 2 ^ 32) : value / P < 2 ^ 32 :=
    Nat.lt_of_le_of_lt (Nat.div_le_self ..) small
  have product : ((chosen.period channel).toNat + 1) * p ≤ 65536 * 4096 :=
    Nat.mul_le_mul (by omega) (by omega)
  have same := rescaledPeriod_eq_iff (n := (chosen.period channel).toNat + 1) (Nat.succ_pos _) less
  rw [Nat.add_sub_cancel] at same
  rw [ofNat_toNat_of_lt (shorter (by omega)), ofNat_toNat_of_lt (shorter (Nat.mod_lt _ (by decide))),
    rescaled_eq_iff less, same, withinTick_shorter_iff less, withinTick_shorter_iff less, difference,
    and_assoc]

end Shared

theorem epwmPairShared_chosen_iff {channel : Fin 6} (regs : EpwmState) {chosen : EpwmRegs}
    {p n c : Nat}
    (period : chosen.period (epwmChannelPair channel) = regs.period (epwmChannelPair channel))
    (cmpdat : chosen.cmpdat (epwmChannelPair channel) = regs.cmpdat (epwmChannelPair channel))
    (prescaler : (chosen.clkpsc (epwmPair channel)).toNat + 1 = p)
    (own : (chosen.period channel).toNat + 1 = n) (small : n ≤ 65535)
    (on : (chosen.cmpdat channel).toNat = c / 100) :
    EpwmPairShared channel regs.toEpwmRegs chosen
        (epwmRescalePair (regs.clkpsc (epwmPair channel)).toNat channel chosen).val ↔
      (regs.clkpsc (epwmPair channel)).toNat + 1 = p ∨
      ((regs.clkpsc (epwmPair channel)).toNat + 1 < p ∧
        ¬p ∣ regs.periodCycles (epwmChannelPair channel)) ∨
      (p < (regs.clkpsc (epwmPair channel)).toNat + 1 ∧
        (n - 1) * ((regs.clkpsc (epwmPair channel)).toNat + 1) ≤ n * p ∧ c < 100 ∧
        ((regs.clkpsc (epwmPair channel)).toNat + 1 - p) *
            ((regs.period (epwmChannelPair channel)).toNat + 1) < p ∧
        ((regs.clkpsc (epwmPair channel)).toNat + 1 - p) *
            (regs.cmpdat (epwmChannelPair channel)).toNat < p) := by
  have few := regs.clkpsc_lt (epwmPair channel)
  have periodSmall := regs.period_lt (epwmChannelPair channel)
  have cmpdatSmall := regs.cmpdat_lt (epwmChannelPair channel)
  subst prescaler own
  rcases Nat.lt_trichotomy (regs.clkpsc (epwmPair channel)).toNat
    (chosen.clkpsc (epwmPair channel)).toNat with grown | same | shrunk
  · rw [epwmPairShared_grown_iff period cmpdat few grown periodSmall cmpdatSmall]
    omega
  · exact iff_of_true (epwmPairShared_same period cmpdat (BitVec.eq_of_toNat_eq same.symm))
      (.inl (congrArg (· + 1) same))
  · rw [epwmPairShared_shrunk_iff period cmpdat few shrunk (by omega), on, Nat.add_sub_cancel,
      Nat.add_sub_add_right, Nat.div_eq_zero_iff]
    omega

theorem nuEpwmSet_val {clockSrc : Nat} {channel : Fin 6} {period pulse : U32} {regs : EpwmRegs}
    (some : period ≠ 0) :
    (nuEpwmSet clockSrc channel period pulse regs).val = (0, (epwmRescalePair
      (regs.clkpsc (epwmPair channel)).toNat channel (epwmConfigOutputChannel clockSrc channel
        (1000000000 / period.toNat) (pulse.toNat * 100 % 2 ^ 32 / period.toNat) regs).val.2).val) := by
  rw [nuEpwmSet, if_neg some]
  rfl

theorem epwm_pair_iff (clk : U32) (channel : Fin 6) (period pulse : U32) (regs : EpwmState) :
    EpwmPairLaw clk.toNat channel period pulse regs.toEpwmRegs ↔
      EpwmPairKept clk.toNat channel period pulse regs.toEpwmRegs := by
  unfold EpwmPairLaw EpwmPairKept
  by_cases none : period = 0
  · rw [nuEpwmSet, if_pos none]
    exact iff_of_true (.inl ⟨Int.negSucc_lt_zero 0, rfl⟩) (.inl none)
  dsimp only
  rw [nuEpwmSet_val none]
  generalize pulse.toNat * 100 % 2 ^ 32 / period.toNat = duty
  generalize 1000000000 / period.toNat = freq
  have served : ¬(0 : Int) < 0 := Int.lt_irrefl 0
  simp only [served, false_and, false_or, none, not_false_eq_true, true_and, ne_eq]
  by_cases some : 0 < freq ∧ 0 < clk.toNat / freq
  · obtain ⟨least, most, least', most'⟩ := epwmChoice_bounds some.2
    obtain ⟨ctl1, wgctl0, wgctl1, written⟩ :=
      @epwmConfig_val clk.toNat freq duty channel some.1 some.2 regs.toEpwmRegs
    rw [written, and_iff_right ⟨Nat.ne_of_gt some.1, Nat.ne_of_gt some.2⟩, and_iff_right some]
    generalize epwmChoice (clk.toNat / freq) = choice at least most least' most'
    obtain ⟨p, n⟩ := choice
    dsimp only at least most least' most' ⊢
    have other := epwmChannelPair_ne channel
    refine epwmPairShared_chosen_iff regs (Function.update_of_ne other ..)
      (Function.update_of_ne other ..) ?_ ?_ most' ?_ <;> dsimp only
    · rw [Function.update_self, ofNat_toNat_of_lt (by omega), Nat.sub_add_cancel least]
    · rw [Function.update_self, ofNat_toNat_of_lt (by omega), Nat.sub_add_cancel least']
    · rw [Function.update_self, ofNat_toNat_of_lt]
      exact Nat.lt_of_le_of_lt (Nat.div_le_self ..) (Nat.mod_lt _ (by decide))
  · refine iff_of_false (fun law => some ?_) (fun kept => some kept.1)
    exact ⟨Nat.pos_of_ne_zero law.1.1, Nat.pos_of_ne_zero law.1.2⟩

/-- Both channels of a pair at 50 Hz from 180 MHz, which takes a prescaler of 55. -/
def EpwmState.slow : EpwmState where
  ctl1 := 0
  clkpsc := fun _ => 54
  period := fun _ => 65453
  cmpdat := fun _ => 32727
  wgctl0 := 0
  wgctl1 := 0
  clkpsc_lt := fun _ => by decide
  period_lt := fun _ => by decide
  cmpdat_lt := fun _ => by decide

/-- One of them is set to 1 kHz at half duty: its own counter is rescaled, which makes it 18 kHz, and
the other channel runs at 917 Hz. -/
theorem slow_misscaled :
    (nuEpwmSet 180000000 0 1000000 500000 EpwmState.slow.toEpwmRegs).val.2.period 0 = 3272 ∧
      (nuEpwmSet 180000000 0 1000000 500000 EpwmState.slow.toEpwmRegs).val.2.period 1 = 65453 ∧
      ¬EpwmPairLaw 180000000 0 1000000 500000 EpwmState.slow.toEpwmRegs := by
  refine ⟨by decide, by decide, fun law => ?_⟩
  rcases law with ⟨refused, -⟩ | ⟨-, -, ⟨-, period, -⟩, -⟩
  · exact absurd refused (by decide)
  · exact absurd period (by decide)

end NuMakerMA35
