import NuMakerMA35.Runs
import NuMakerMA35.BitUtil
import Mathlib.Logic.Function.Basic

namespace NuMakerMA35

/-- What `TIMER_GetModuleClock` reads: the source field of every timer in CLKSEL1 and CLKSEL2, and
whether SYSCLK1 comes from the crystal. -/
structure TimerClocks where
  sel : Fin 12 → Fin 8
  sysck1Hxt : Bool

def timerHxt : U32 := 24000000
def timerLxt : U32 := 32768
def timerLirc : U32 := 30000
def timerHirc : U32 := 12000000
def sysPllFreq : U32 := 180000000

def clkGetSysclk1Freq (clocks : TimerClocks) : U32 := if clocks.sysck1Hxt then timerHxt else sysPllFreq

def timerGetModuleClock (clocks : TimerClocks) (timer : Fin 12) : U32 :=
  if clocks.sel timer = 2 then clkGetSysclk1Freq clocks
  else [timerHxt, timerLxt, 0, 0, 0, timerLirc, 0, timerHirc].getD (clocks.sel timer) 0

/-- `rt_hwtimer_info`; the range of the counter is not used here. -/
structure HwTimerInfo where
  maxfreq : U32
  minfreq : U32

/-- A timer: its registers, and the frequency that the framework counts with. The prescaler is the
last one that was computed for it, before it went into the register. -/
structure HwTimer where
  ctl : U32
  cmp : U32
  freq : U32
  opened : Bool
  prescale : U32

namespace HwTimer

def psc (timer : HwTimer) : Nat := (timer.ctl &&& 0xff).toNat

end HwTimer

def timerOneshotMode : U32 := 0
def timerPeriodicMode : U32 := 1 <<< 27
def timerOpmodeMask : U32 := 3 <<< 27
def timerIntenMask : U32 := 1 <<< 29
def timerCntenMask : U32 := 1 <<< 30

def timerOpen (clk mode freq : U32) (timer : HwTimer) : HwTimer :=
  if freq > clk / 2 then { timer with ctl := mode, cmp := 2 }
  else
    let cmpr := clk / freq
    let prescale := cmpr >>> 24
    { timer with
      ctl := mode ||| prescale
      cmp := if prescale > 0 then cmpr / (prescale + 1) else cmpr }

/-- `nu_timer_init`: the range goes to the one record that all timers share. -/
def nuTimerInit (clk state : U32) (info : HwTimerInfo) (timer : HwTimer) : HwTimerInfo × HwTimer :=
  if state = 1 then
    let timer := timerOpen clk timerOneshotMode 1 timer
    (⟨clk, clk / 256⟩, { timer with ctl := timer.ctl ||| timerIntenMask })
  else (info, { timer with ctl := 0 })

def nuTimerStart (cnt : U32) (periodic : Bool) (timer : HwTimer) : HwTimer :=
  if cnt ≤ 1 ∨ cnt > 0xFFFFFF then timer
  else
    let mode := if periodic then timerPeriodicMode else timerOneshotMode
    { timer with
      cmp := cnt
      ctl := (timer.ctl &&& ~~~timerOpmodeMask ||| mode) ||| timerIntenMask ||| timerCntenMask }

def nuTimerStop (timer : HwTimer) : HwTimer :=
  { timer with ctl := timer.ctl &&& ~~~timerIntenMask &&& ~~~timerCntenMask }

/-- `nu_timer_control` for `HWTIMER_CTRL_FREQ_SET`: the timer, and what the request is replaced by;
there is no result where it divides by zero. -/
def nuTimerFreqSet (clk args : U32) (timer : HwTimer) : Option (HwTimer × U32) :=
  if args = 0 then none
  else
    let pre := clk / args - 1
    if pre + 1 = 0 then none
    else some ({ timer with ctl := timer.ctl &&& ~~~0xff ||| pre, prescale := pre }, clk / (pre + 1))

/-- All timers with the record that they share; a division by zero ends the run. -/
structure TimerBank where
  info : HwTimerInfo
  timers : Fin 12 → HwTimer
  fault : Bool

inductive TimerEvent where
  | openTimer (i : Fin 12)
  | closeTimer (i : Fin 12)
  | freqSet (i : Fin 12) (f : U32)
  | stop (i : Fin 12)
  | write (i : Fin 12) (cnt : U32) (periodic : Bool)

namespace TimerBank

variable (clocks : TimerClocks) (bank : TimerBank)

def boot : TimerBank where
  info := ⟨timerHxt, timerHxt / 256⟩
  timers := fun _ => ⟨0, 0, 0, false, 0⟩
  fault := false

def put (i : Fin 12) (timer : HwTimer) : TimerBank :=
  { bank with timers := Function.update bank.timers i timer }

/-- The frequency that `rt_hwtimer_init` settles on, before the timer's own range is known. -/
def firstFreq : U32 :=
  if 1000000 ≤ bank.info.maxfreq.toInt ∧ 1000000 ≥ bank.info.minfreq.toInt then 1000000
  else bank.info.minfreq

def InRange (f : U32) : Prop :=
  ¬(f.toInt > bank.info.maxfreq.toInt ∨ f.toInt < bank.info.minfreq.toInt)

instance (f : U32) : Decidable (bank.InRange f) := inferInstanceAs (Decidable (¬_))

def freqSet (i : Fin 12) (f : U32) (timer : HwTimer) : TimerBank :=
  match nuTimerFreqSet (timerGetModuleClock clocks i) f timer with
  | none => { bank with fault := true }
  | some (timer, f) => bank.put i { timer with freq := f }

def rtHwtimerOpen (i : Fin 12) : TimerBank :=
  let timer := { bank.timers i with freq := bank.firstFreq, opened := true }
  let (info, timer) := nuTimerInit (timerGetModuleClock clocks i) 1 bank.info timer
  freqSet clocks { bank with info := info } i timer.freq timer

def step : TimerEvent → TimerBank
  | .openTimer i => if (bank.timers i).opened then bank else bank.rtHwtimerOpen clocks i
  | .closeTimer i =>
    if (bank.timers i).opened then
      let (info, timer) := nuTimerInit (timerGetModuleClock clocks i) 0 bank.info (bank.timers i)
      { bank.put i { timer with opened := false } with info := info }
    else bank
  | .freqSet i f => if bank.InRange f then bank.freqSet clocks i f (bank.timers i) else bank
  | .stop i => bank.put i (nuTimerStop (bank.timers i))
  | .write i cnt periodic =>
    if (bank.timers i).opened then
      bank.put i (nuTimerStart cnt periodic (nuTimerStop (bank.timers i)))
    else bank

/-- No division by zero so far, every prescaler that was computed fits into its field, and an open
timer's frequency is its clock divided by one more than the prescaler in the register. -/
structure FreqLaw : Prop where
  fault : bank.fault = false
  fits : ∀ i, (bank.timers i).prescale.toNat < 256
  freq : ∀ i, (bank.timers i).opened = true → (bank.timers i).freq.toNat =
    (timerGetModuleClock clocks i).toNat / ((bank.timers i).psc + 1)

def Attainable (clk f : U32) : Prop := f.toNat ≤ clk.toNat ∧ clk.toNat < 257 * f.toNat

/-- The request that a step makes to a driver is one that the timer's own clock can meet. -/
def Meets : TimerEvent → Prop
  | .openTimer i => (bank.timers i).opened = false →
      Attainable (timerGetModuleClock clocks i) bank.firstFreq
  | .freqSet i f => bank.InRange f → Attainable (timerGetModuleClock clocks i) f
  | _ => True

end TimerBank

section FreqSet

variable {clk f : U32} (timer : HwTimer)

theorem attainable_iff : TimerBank.Attainable clk f ↔ clk / f ≠ 0 ∧ clk.toNat / f.toNat ≤ 256 := by
  have quotient : clk / f ≠ 0 ↔ 0 < clk.toNat / f.toNat := by
    rw [← BitVec.toNat_udiv, Nat.pos_iff_ne_zero]
    exact not_congr ⟨congrArg BitVec.toNat, fun h => BitVec.eq_of_toNat_eq h⟩
  unfold TimerBank.Attainable
  rw [quotient]
  rcases Nat.eq_zero_or_pos f.toNat with zero | above
  · simp [zero]
  · rw [Nat.div_pos_iff, ← Nat.lt_succ_iff (n := 256), Nat.div_lt_iff_lt_mul above]
    exact ⟨fun h => ⟨⟨above, h.1⟩, h.2⟩, fun h => ⟨h.1.2, h.2⟩⟩

theorem nuTimerFreqSet_eq (reached : clk / f ≠ 0) : nuTimerFreqSet clk f timer = some
    ({ timer with ctl := timer.ctl &&& ~~~0xff ||| (clk / f - 1), prescale := clk / f - 1 },
      clk / (clk / f)) := by
  have nonzero : f ≠ 0 := fun zero => reached (by rw [zero]; exact BitVec.udiv_zero)
  simp only [nuTimerFreqSet, BitVec.sub_add_cancel]
  rw [if_neg nonzero, if_neg reached]

theorem nuTimerFreqSet_none (missed : clk / f = 0) : nuTimerFreqSet clk f timer = none := by
  unfold nuTimerFreqSet
  rw [missed]
  exact ite_eq_left_iff.mpr fun _ => if_pos (by decide)

theorem prescale_toNat (reached : clk / f ≠ 0) :
    (clk / f - 1).toNat = clk.toNat / f.toNat - 1 ∧ 1 ≤ clk.toNat / f.toNat := by
  have quotient : (clk / f).toNat = clk.toNat / f.toNat := BitVec.toNat_udiv
  have above : 1 ≤ (clk / f).toNat :=
    BitVec.toNat_pos_of_ne_zero reached
  refine ⟨?_, quotient ▸ above⟩
  have one : (1 : U32) ≤ clk / f := above
  rw [BitVec.toNat_sub_of_le one, quotient]
  rfl

theorem nuTimerFreqSet_attained (attained : TimerBank.Attainable clk f) : ∃ timer' f',
    nuTimerFreqSet clk f timer = some (timer', f') ∧ timer'.opened = timer.opened ∧
      timer'.prescale.toNat < 256 ∧ f'.toNat = clk.toNat / (timer'.psc + 1) := by
  obtain ⟨reached, below⟩ := attainable_iff.mp attained
  obtain ⟨pre, above⟩ := prescale_toNat reached
  refine ⟨_, _, nuTimerFreqSet_eq timer reached, rfl, ?_, ?_⟩
  · show (clk / f - 1).toNat < 256
    omega
  · have field : ((timer.ctl &&& ~~~0xff ||| (clk / f - 1)) &&& 0xff).toNat = (clk / f - 1).toNat := by
      rw [BitVec.and_comm, BitVec.and_or_distrib_left, BitVec.and_comm 0xff (timer.ctl &&& _),
        clearMask_self, BitVec.and_comm]
      rw [show 0 ||| (clk / f - 1) &&& 0xff = (clk / f - 1) &&& 0xff from BitVec.zero_or]
      rw [BitVec.toNat_and]
      exact (Nat.and_two_pow_sub_one_eq_mod _ 8).trans (Nat.mod_eq_of_lt (by omega))
    rw [HwTimer.psc, field, pre, Nat.sub_add_cancel above, BitVec.toNat_udiv, BitVec.toNat_udiv]

theorem nuTimerFreqSet_missed (missed : ¬TimerBank.Attainable clk f) :
    nuTimerFreqSet clk f timer = none ∨
      ∃ timer' f', nuTimerFreqSet clk f timer = some (timer', f') ∧ 256 ≤ timer'.prescale.toNat := by
  by_cases reached : clk / f = 0
  · exact .inl (nuTimerFreqSet_none timer reached)
  · obtain ⟨pre, above⟩ := prescale_toNat reached
    refine .inr ⟨_, _, nuTimerFreqSet_eq timer reached, ?_⟩
    show 256 ≤ (clk / f - 1).toNat
    have past : ¬clk.toNat / f.toNat ≤ 256 := fun below => missed (attainable_iff.mpr ⟨reached, below⟩)
    omega

end FreqSet

theorem nuTimerStop_psc (timer : HwTimer) : (nuTimerStop timer).psc = timer.psc := by
  rw [HwTimer.psc, nuTimerStop, clearMask_and (by decide), clearMask_and (by decide), HwTimer.psc]

theorem nuTimerStart_psc (cnt : U32) (periodic : Bool) (timer : HwTimer) :
    (nuTimerStart cnt periodic timer).psc = timer.psc := by
  unfold nuTimerStart
  split_ifs with refused
  · rfl
  all_goals
    rw [HwTimer.psc, orMask_and (by decide), orMask_and (by decide), orMask_and (by decide),
      clearMask_and (by decide), HwTimer.psc]

theorem nuTimerStart_kept (cnt : U32) (periodic : Bool) (timer : HwTimer) :
    (nuTimerStart cnt periodic timer).freq = timer.freq ∧
      (nuTimerStart cnt periodic timer).opened = timer.opened ∧
      (nuTimerStart cnt periodic timer).prescale = timer.prescale := by
  unfold nuTimerStart
  split_ifs <;> exact ⟨rfl, rfl, rfl⟩

theorem nuTimerInit_kept (clk state : U32) (info : HwTimerInfo) (timer : HwTimer) :
    (nuTimerInit clk state info timer).2.freq = timer.freq ∧
      (nuTimerInit clk state info timer).2.opened = timer.opened ∧
      (nuTimerInit clk state info timer).2.prescale = timer.prescale := by
  unfold nuTimerInit timerOpen
  split_ifs <;> exact ⟨rfl, rfl, rfl⟩

namespace TimerBank

variable {clocks : TimerClocks} {bank : TimerBank} {i : Fin 12} {timer : HwTimer}

@[simp] theorem put_self : (bank.put i timer).timers i = timer := Function.update_self ..

@[simp] theorem put_other {j : Fin 12} (other : j ≠ i) : (bank.put i timer).timers j = bank.timers j :=
  Function.update_of_ne other ..

theorem FreqLaw.put (law : bank.FreqLaw clocks) (fits : timer.prescale.toNat < 256)
    (freq : timer.opened = true → timer.freq.toNat =
      (timerGetModuleClock clocks i).toNat / (timer.psc + 1)) :
    (bank.put i timer).FreqLaw clocks where
  fault := law.fault
  fits := by
    intro j
    by_cases same : j = i
    · subst same
      rwa [put_self]
    · rw [put_other same]
      exact law.fits j
  freq := by
    intro j
    by_cases same : j = i
    · subst same
      rwa [put_self]
    · rw [put_other same]
      exact law.freq j

theorem FreqLaw.info (law : bank.FreqLaw clocks) (info : HwTimerInfo) :
    FreqLaw clocks { bank with info := info } := ⟨law.fault, law.fits, law.freq⟩

theorem FreqLaw.freqSet_iff (law : bank.FreqLaw clocks) (f : U32) :
    (bank.freqSet clocks i f timer).FreqLaw clocks ↔ Attainable (timerGetModuleClock clocks i) f := by
  unfold freqSet
  constructor
  · intro after
    by_contra missed
    rcases nuTimerFreqSet_missed timer missed with none | ⟨timer', f', done, past⟩
    · rw [none] at after
      exact Bool.noConfusion after.fault
    · rw [done] at after
      have fits : timer'.prescale.toNat < 256 := by simpa only [put_self] using after.fits i
      omega
  · intro attained
    obtain ⟨timer', f', done, -, fits, freq⟩ := nuTimerFreqSet_attained timer attained
    rw [done]
    exact law.put fits fun _ => freq

theorem FreqLaw.step_iff (law : bank.FreqLaw clocks) (event : TimerEvent) :
    (bank.step clocks event).FreqLaw clocks ↔ bank.Meets clocks event := by
  cases event with
  | openTimer i =>
    simp only [step, Meets]
    by_cases opened : (bank.timers i).opened = true
    · simp [opened, law]
    · rw [if_neg opened]
      simp only [Bool.not_eq_true] at opened
      simp only [opened, forall_const, rtHwtimerOpen, (nuTimerInit_kept _ _ _ _).1]
      exact (law.info _).freqSet_iff _
  | closeTimer i =>
    refine iff_of_true ?_ trivial
    simp only [step]
    split_ifs with opened
    · apply FreqLaw.info
      apply law.put
      · exact law.fits i
      · intro closed
        cases closed
    · exact law
  | freqSet i f =>
    simp only [step, Meets]
    by_cases asked : bank.InRange f
    · rw [if_pos asked, law.freqSet_iff]
      simp [asked]
    · rw [if_neg asked]
      simp [asked, law]
  | stop i =>
    refine iff_of_true (law.put (law.fits i) fun opened => ?_) trivial
    rw [nuTimerStop_psc]
    exact law.freq i opened
  | write i cnt periodic =>
    refine iff_of_true ?_ trivial
    simp only [step]
    obtain ⟨freq, opened, prescale⟩ := nuTimerStart_kept cnt periodic (nuTimerStop (bank.timers i))
    split_ifs with openedNow
    · apply law.put
      · rw [prescale]
        exact law.fits i
      · intro _
        rw [freq, nuTimerStart_psc, nuTimerStop_psc]
        exact law.freq i openedNow
    · exact law

theorem boot_freqLaw : boot.FreqLaw clocks where
  fault := rfl
  fits := fun _ => (by decide : (0 : U32).toNat < 256)
  freq := by
    intro _ opened
    cases opened

end TimerBank

/-- The law holds in every state of a run just where every request that reaches a driver is one that
the timer's own clock can be divided down to. -/
theorem timer_frequency_iff (clocks : TimerClocks) (es : List TimerEvent) :
    (∀ pre, pre <+: es → (pre.foldl (TimerBank.step clocks) .boot).FreqLaw clocks) ↔
      Runs.StepsMeet (TimerBank.step clocks) (TimerBank.Meets clocks) .boot es :=
  Runs.prefixes_hold_iff (TimerBank.FreqLaw clocks) (TimerBank.FreqLaw clocks) (fun _ law => law)
    (fun _ event law => law.step_iff event) (fun _ event law meets => (law.step_iff event).mpr meets)
    TimerBank.boot_freqLaw es

def crystalAndPll : TimerClocks where
  sel := fun i => if i = 1 then 2 else 0
  sysck1Hxt := false

/-- Both timers are opened, then the first is asked for 48 MHz, which the range of the second has. -/
def requestInOthersRange : List TimerEvent := [.openTimer 0, .openTimer 1, .freqSet 0 48000000]

theorem shared_range_divides_by_zero :
    (([.openTimer 0, .openTimer 1] : List TimerEvent).foldl (TimerBank.step crystalAndPll) .boot).InRange
        48000000 ∧
      (requestInOthersRange.foldl (TimerBank.step crystalAndPll) .boot).fault = true ∧
      ¬∀ pre, pre <+: requestInOthersRange →
        (pre.foldl (TimerBank.step crystalAndPll) .boot).FreqLaw crystalAndPll := by
  have fault : (requestInOthersRange.foldl (TimerBank.step crystalAndPll) .boot).fault = true := by
    decide
  refine ⟨by decide, fault, fun law => ?_⟩
  have calm := (law requestInOthersRange (List.prefix_refl _)).fault
  rw [fault] at calm
  exact Bool.noConfusion calm

namespace TimerBank

variable {clocks : TimerClocks} {bank : TimerBank}

theorem step_meets_of_crystal (crystal : ∀ i, timerGetModuleClock clocks i = timerHxt)
    (info : bank.info = boot.info) (event : TimerEvent) :
    bank.Meets clocks event ∧ (bank.step clocks event).info = boot.info := by
  have same (i : Fin 12) (state : U32) (timer : HwTimer) :
      (nuTimerInit timerHxt state boot.info timer).1 = boot.info := by
    unfold nuTimerInit
    split_ifs <;> rfl
  have kept {info : HwTimerInfo} (i : Fin 12) (f : U32) (timer : HwTimer) :
      (freqSet clocks { bank with info := info } i f timer).info = info := by
    unfold freqSet
    split <;> rfl
  cases event with
  | openTimer i =>
    constructor
    · intro _
      rw [crystal, firstFreq, info]
      unfold Attainable
      decide
    · simp only [step, rtHwtimerOpen, crystal, info]
      split_ifs
      · exact info
      · rw [kept, same i]
  | closeTimer i =>
    refine ⟨trivial, ?_⟩
    simp only [step, crystal, info]
    split_ifs
    · exact same i _ _
    · exact info
  | freqSet i f =>
    constructor
    · intro asked
      have range : ¬(f.toInt > 24000000 ∨ f.toInt < 93750) := by
        rw [InRange, info] at asked
        exact asked
      have number : (f.toNat : Int) = f.toInt := by
        rw [BitVec.toInt_eq_toNat_cond] at range ⊢
        split_ifs at range ⊢ <;> omega
      rw [crystal, Attainable, show timerHxt.toNat = 24000000 from rfl]
      omega
    · simp only [step]
      split_ifs
      · exact (kept i f _).trans info
      · exact info
  | stop i => exact ⟨trivial, info⟩
  | write i cnt periodic =>
    refine ⟨trivial, ?_⟩
    simp only [step]
    split_ifs <;> exact info

end TimerBank

/-- On one clock, the crystal's, the shared record does no harm. -/
theorem timer_frequency_of_crystal {clocks : TimerClocks}
    (crystal : ∀ i, timerGetModuleClock clocks i = timerHxt) (es : List TimerEvent) :
    (es.foldl (TimerBank.step clocks) .boot).FreqLaw clocks := by
  have both : (es.foldl (TimerBank.step clocks) .boot).FreqLaw clocks ∧
      (es.foldl (TimerBank.step clocks) .boot).info = TimerBank.boot.info := by
    refine Runs.foldl_invariant (fun _ _ => True)
      (fun bank : TimerBank => bank.FreqLaw clocks ∧ bank.info = TimerBank.boot.info) ?_
      ⟨TimerBank.boot_freqLaw, rfl⟩ fun _ _ _ => trivial
    rintro bank event ⟨law, info⟩ -
    obtain ⟨meets, next⟩ := TimerBank.step_meets_of_crystal crystal info event
    exact ⟨(law.step_iff event).mpr meets, next⟩
  exact both.1

end NuMakerMA35
