import NuMakerMA35.PdmaTimeout

namespace NuMakerMA35

open MaskedWrite

/-- Bus clocks until the time-out of a channel: each step of the prescaler doubles the divider of 256. -/
def timeoutTicks (r : PdmaTimeoutRegs) (ch : Nat) : Nat :=
  readField (r (.toc (ch / 2))) 16 (ch % 2 * 16) * 2 ^ (8 + PdmaTimed.prescaler r ch)

def timeoutTicksMax : Nat := (2 ^ 16 - 1) * 2 ^ 15

def unitTicks (units : Nat) : Nat :=
  if units / 2 ^ 16 > 7 then timeoutTicksMax else units % 2 ^ 16 * 2 ^ (8 + units / 2 ^ 16)

theorem choice_ticks (clk timeoutUs : U32) : (timeoutChoice clk timeoutUs).2 *
    2 ^ (8 + (timeoutChoice clk timeoutUs).1) = unitTicks (timeoutUnits clk timeoutUs) := by
  unfold timeoutChoice unitTicks
  split_ifs <;> rfl

theorem unitTicks_band {units units' : Nat} (same : units / 2 ^ 16 = units' / 2 ^ 16)
    (order : units ≤ units') : unitTicks units ≤ unitTicks units' := by
  unfold unitTicks
  rw [same]
  split_ifs
  · exact le_rfl
  · exact Nat.mul_le_mul_right _ (by omega)

theorem unitTicks_top {units : Nat} (large : 8 * 2 ^ 16 - 1 ≤ units) :
    unitTicks units = timeoutTicksMax := by
  unfold unitTicks
  split_ifs with beyond
  · rfl
  · rw [show units = 8 * 2 ^ 16 - 1 by omega]
    rfl

theorem unitTicks_le (units : Nat) : unitTicks units ≤ timeoutTicksMax := by
  rcases Nat.lt_or_ge units (8 * 2 ^ 16 - 1) with small | large
  · unfold unitTicks timeoutTicksMax
    rw [if_neg (by omega)]
    apply Nat.mul_le_mul
    · omega
    · exact Nat.pow_le_pow_right (by omega) (by omega)
  · exact (unitTicks_top large).le

theorem unitTicks_small {units : Nat} (small : units < 8 * 2 ^ 16 - 1) :
    unitTicks units = units % 2 ^ 16 * 2 ^ (8 + units / 2 ^ 16) ∧ unitTicks units < timeoutTicksMax := by
  have value : unitTicks units = units % 2 ^ 16 * 2 ^ (8 + units / 2 ^ 16) := by
    unfold unitTicks
    rw [if_neg (by omega)]
  refine ⟨value, ?_⟩
  rw [value, timeoutTicksMax]
  rcases Nat.lt_or_ge (units / 2 ^ 16) 7 with lower | last
  · calc units % 2 ^ 16 * 2 ^ (8 + units / 2 ^ 16)
        ≤ (2 ^ 16 - 1) * 2 ^ 14 :=
          Nat.mul_le_mul (by omega) (Nat.pow_le_pow_right (by omega) (by omega))
      _ < (2 ^ 16 - 1) * 2 ^ 15 := by decide
  · rw [show units / 2 ^ 16 = 7 by omega]
    exact Nat.mul_lt_mul_of_pos_right (by omega) (by decide)

theorem unitTicks_least_iff {units top : Nat} (some : 0 < unitTicks units) (below : units ≤ top) :
    (∀ units', units ≤ units' → units' ≤ top → unitTicks units ≤ unitTicks units') ↔
      8 * 2 ^ 16 - 1 ≤ units ∨ units / 2 ^ 16 = min 7 (top / 2 ^ 16) := by
  constructor
  · intro least
    by_contra other
    push Not at other
    obtain ⟨small, band⟩ := other
    have upTo : units / 2 ^ 16 ≤ top / 2 ^ 16 := Nat.div_le_div_right below
    have more : units / 2 ^ 16 + 1 ≤ min 7 (top / 2 ^ 16) := by omega
    -- The first number of the next band sets the counter to zero.
    have next := least ((units / 2 ^ 16 + 1) * 2 ^ 16) (by omega) (by omega)
    have none : unitTicks ((units / 2 ^ 16 + 1) * 2 ^ 16) = 0 := by
      unfold unitTicks
      rw [if_neg (by omega), Nat.mul_mod_left, Nat.zero_mul]
    omega
  · rintro (large | band) units' order inside
    · rw [unitTicks_top large, unitTicks_top (large.trans order)]
    · have upTo : units' / 2 ^ 16 ≤ top / 2 ^ 16 := Nat.div_le_div_right inside
      have order' : units / 2 ^ 16 ≤ units' / 2 ^ 16 := Nat.div_le_div_right order
      by_cases beyond : units' / 2 ^ 16 > 7
      · have all : unitTicks units' = timeoutTicksMax := by
          unfold unitTicks
          rw [if_pos beyond]
        rw [all]
        exact unitTicks_le units
      · exact unitTicks_band (by omega) order

namespace PdmaTimed

variable {clk timeoutUs : U32} {s t : PdmaTimed} {ch : Nat}

def ticks (s : PdmaTimed) (ch : Nat) : Nat :=
  timeoutTicks (s.timeoutRegs (ch / pdmaChMax)) (ch % pdmaChMax)

/-- What is asked of the time-out that a time sets: it is some time, no less than asked for unless
it is the longest there is, and no longer request gets a shorter one. -/
def IdleTimeLaw (clk : U32) (s : PdmaTimed) (ch : Nat) (timeoutUs : U32) : Prop :=
  ∃ t, s.timeoutDone clk ch timeoutUs = some t ∧ 0 < t.ticks ch ∧
    (timeoutUs.toNat * clk.toNat ≤ t.ticks ch * 1000000 ∨ t.ticks ch = timeoutTicksMax) ∧
    ∀ more : U32, timeoutUs.toNat ≤ more.toNat →
      ∃ t', s.timeoutDone clk ch more = some t' ∧ t.ticks ch ≤ t'.ticks ch

theorem ticks_afterSet (low : ch % pdmaChMax < 8) (asks : timeoutUs ≠ 0) :
    (s.afterSet clk ch timeoutUs).ticks ch = unitTicks (timeoutUnits clk timeoutUs) := by
  obtain ⟨divider, count⟩ := timeoutChoice_small clk timeoutUs
  unfold ticks timeoutTicks prescaler afterSet
  dsimp only
  rw [Function.update_self, if_pos low, Nat.mod_eq_of_lt low]
  unfold settingMask settingBits
  rw [if_neg asks, if_neg asks, if_neg asks, if_neg asks, ← choice_ticks]
  unfold timeoutMask timeoutBits
  dsimp only
  rw [if_pos rfl, if_pos rfl, readField_write count (by omega), readField_write divider (by omega)]

def unitsTop (clk : U32) : Nat := (2 ^ 32 - 1) / toClkMax clk

theorem exists_units (divides : ClockDivides clk) {units : Nat} (inside : units ≤ unitsTop clk) :
    ∃ more : U32, timeoutUnits clk more = units ∧ more.toNat = units * toClkMax clk := by
  have unit : 0 < toClkMax clk := Nat.pos_of_ne_zero (clockDivides_iff.mp divides).2
  have fits : units * toClkMax clk ≤ 2 ^ 32 - 1 := (Nat.le_div_iff_mul_le unit).mp inside
  have value : (BitVec.ofNat 32 (units * toClkMax clk)).toNat = units * toClkMax clk := by
    rw [BitVec.toNat_ofNat, Nat.mod_eq_of_lt (by omega)]
  refine ⟨BitVec.ofNat 32 (units * toClkMax clk), ?_, value⟩
  rw [timeoutUnits, value, Nat.mul_div_cancel _ unit]

theorem timeoutUnits_le (clk timeoutUs : U32) : timeoutUnits clk timeoutUs ≤ unitsTop clk :=
  Nat.div_le_div_right (by have := timeoutUs.isLt; omega)

theorem longer_iff (divides : ClockDivides clk) : (∀ more : U32, timeoutUs.toNat ≤ more.toNat →
    unitTicks (timeoutUnits clk timeoutUs) ≤ unitTicks (timeoutUnits clk more)) ↔
      ∀ units, timeoutUnits clk timeoutUs ≤ units → units ≤ unitsTop clk →
        unitTicks (timeoutUnits clk timeoutUs) ≤ unitTicks units := by
  have unit : 0 < toClkMax clk := Nat.pos_of_ne_zero (clockDivides_iff.mp divides).2
  constructor
  · intro longer units order inside
    rcases Nat.eq_or_lt_of_le order with same | further
    · rw [same]
    · obtain ⟨more, has, value⟩ := exists_units divides inside
      have later : timeoutUs.toNat < units * toClkMax clk := (Nat.div_lt_iff_lt_mul unit).mp further
      rw [← has]
      exact longer more (by omega)
  · intro longer more order
    exact longer _ (Nat.div_le_div_right order) (timeoutUnits_le clk more)

theorem ticks_of_done (alloc : s.allocated ch) (asks : timeoutUs ≠ 0)
    (done : s.timeoutDone clk ch timeoutUs = some t) :
    ClockDivides clk ∧ ch % pdmaChMax < 8 ∧ t.ticks ch = unitTicks (timeoutUnits clk timeoutUs) := by
  rw [timeoutDone_eq alloc] at done
  split_ifs at done with defined
  cases done
  obtain ⟨divides, low⟩ := defined.resolve_left asks
  exact ⟨divides, low, ticks_afterSet low asks⟩

theorem idle_time_law_iff (alloc : s.allocated ch) (asks : timeoutUs ≠ 0) :
    s.IdleTimeLaw clk ch timeoutUs ↔
      ClockDivides clk ∧ ch % pdmaChMax < 8 ∧
        (8 * 2 ^ 16 - 1 ≤ timeoutUnits clk timeoutUs ∨
          timeoutUnits clk timeoutUs / 2 ^ 16 = min 7 (unitsTop clk / 2 ^ 16) ∧
            timeoutUnits clk timeoutUs % 2 ^ 16 ≠ 0 ∧
            timeoutUs.toNat * clk.toNat ≤ timeoutUnits clk timeoutUs % 2 ^ 16 *
              2 ^ (8 + timeoutUnits clk timeoutUs / 2 ^ 16) * 1000000) := by
  have asked : 0 < timeoutUs.toNat := by
    rw [Nat.pos_iff_ne_zero]
    exact fun none => asks (BitVec.eq_of_toNat_eq none)
  have later {more : U32} (order : timeoutUs.toNat ≤ more.toNat) : more ≠ 0 := by
    rintro rfl
    exact absurd order (Nat.not_le_of_gt asked)
  constructor
  · rintro ⟨t, done, positive, enough, longer⟩
    obtain ⟨divides, low, ticks⟩ := ticks_of_done alloc asks done
    rw [ticks] at positive enough longer
    refine ⟨divides, low, ?_⟩
    have least : ∀ more : U32, timeoutUs.toNat ≤ more.toNat →
        unitTicks (timeoutUnits clk timeoutUs) ≤ unitTicks (timeoutUnits clk more) := by
      intro more order
      obtain ⟨t', done', less⟩ := longer more order
      rwa [(ticks_of_done alloc (later order) done').2.2] at less
    rcases Nat.lt_or_ge (timeoutUnits clk timeoutUs) (8 * 2 ^ 16 - 1) with small | large
    · obtain ⟨value, notMax⟩ := unitTicks_small small
      have band := (unitTicks_least_iff positive (timeoutUnits_le clk timeoutUs)).mp
        ((longer_iff divides).mp least)
      have long := enough.resolve_right notMax.ne
      rw [value] at positive long
      refine .inr ⟨band.resolve_left (by omega), ?_, long⟩
      intro none
      rw [none, Nat.zero_mul] at positive
      exact Nat.lt_irrefl 0 positive
    · exact .inl large
  · rintro ⟨divides, low, holds⟩
    have defined (more : U32) : s.timeoutDone clk ch more = some (s.afterSet clk ch more) := by
      rw [timeoutDone_eq alloc, if_pos (show Settable clk ch more from Or.inr ⟨divides, low⟩)]
    have set : 0 < unitTicks (timeoutUnits clk timeoutUs) ∧
        (timeoutUs.toNat * clk.toNat ≤ unitTicks (timeoutUnits clk timeoutUs) * 1000000 ∨
          unitTicks (timeoutUnits clk timeoutUs) = timeoutTicksMax) := by
      rcases Nat.lt_or_ge (timeoutUnits clk timeoutUs) (8 * 2 ^ 16 - 1) with small | large
      · obtain ⟨-, counted, long⟩ := holds.resolve_left (by omega)
        rw [(unitTicks_small small).1]
        exact ⟨Nat.mul_pos (Nat.pos_of_ne_zero counted) (Nat.two_pow_pos _), .inl long⟩
      · rw [unitTicks_top large]
        exact ⟨by decide, .inr rfl⟩
    have band : 8 * 2 ^ 16 - 1 ≤ timeoutUnits clk timeoutUs ∨
        timeoutUnits clk timeoutUs / 2 ^ 16 = min 7 (unitsTop clk / 2 ^ 16) := holds.imp id And.left
    have least := (longer_iff divides).mpr
      ((unitTicks_least_iff set.1 (timeoutUnits_le clk timeoutUs)).mpr band)
    refine ⟨_, defined timeoutUs, ?_, ?_, ?_⟩
    · rw [ticks_afterSet low asks]
      exact set.1
    · rw [ticks_afterSet low asks]
      exact set.2
    · intro more order
      refine ⟨_, defined more, ?_⟩
      rw [ticks_afterSet low asks, ticks_afterSet low (later order)]
      exact least more order

theorem firstBusy_idle_time : firstBusy.IdleTimeLaw 180000000 0 600000 :=
  (idle_time_law_iff (by decide) (by decide)).mpr (by decide)

/-- At 180 MHz the first request that needs the prescaler sets the counter to zero. -/
theorem idle_time_zero : firstBusy.allocated 0 ∧ ¬firstBusy.IdleTimeLaw 180000000 0 65536 := by
  have alloc : firstBusy.allocated 0 := by decide
  refine ⟨alloc, ?_⟩
  rintro ⟨t, done, positive, -⟩
  obtain ⟨-, -, ticks⟩ := ticks_of_done alloc (by decide) done
  rw [ticks] at positive
  exact absurd positive (by decide)

end PdmaTimed

end NuMakerMA35
