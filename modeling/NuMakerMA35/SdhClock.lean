import NuMakerMA35.BitUtil
import Mathlib.Order.Bounds.Basic
import Mathlib.Tactic.Ring

namespace NuMakerMA35

structure SdhClkCtrl where
  internalClkEn : Bool
  sdClkEn : Bool
  upperFreqSel : Nat
  freqSel : Nat
  deriving DecidableEq

def SdhClkCtrl.off : SdhClkCtrl := ⟨false, false, 0, 0⟩

def SdhClkCtrl.divider (r : SdhClkCtrl) : Nat := r.upperFreqSel * 2 ^ 8 + r.freqSel

def sdhDivided (src div : Nat) : Nat := if div = 0 then src else src / (2 * div)

def SdhClkCtrl.cardClock (src : Nat) (r : SdhClkCtrl) : Nat :=
  if r.sdClkEn then sdhDivided src r.divider else 0

/-- A wait of `SDH_SetClock`: whether it ends before its polls are used up, on the answers from the
`i`-th on. -/
def sdhWait (busy : Nat → Bool) (i : Nat) : Nat → Bool
  | 0 => !busy i
  | timeout + 1 => if busy i then sdhWait busy (i + 1) timeout else true

/-- The correcting loop; nothing comes back where it divides by zero or has no more turns. -/
def sdhDivSearch (src req : Nat) : Nat → Nat → Option Nat
  | 0, _ => none
  | turns + 1, div =>
    let d := 2 * div % 2 ^ 32
    if d = 0 then none
    else if src / d > req then sdhDivSearch src req turns ((div + 1) % 2 ^ 32)
    else some div

def sdhDiv (turns src req : Nat) : Option Nat :=
  let div := src / 2 / req
  if div > 0 then sdhDivSearch src req turns div else some div

/-- `SDH_SetClock`, with what the polls of the two waits find. -/
def sdhSetClock (inhibit unstable : Nat → Bool) (turns src req : Nat) : Option (SdhClkCtrl × Nat) :=
  if req = 0 then some (.off, 0)
  else if sdhWait inhibit 0 200 = false then some (.off, 0)
  else do
    let div ← sdhDiv turns src req
    if sdhWait unstable 0 200 = false then some (.off, 0)
    else some (⟨true, true, div / 2 ^ 8 % 2 ^ 2, div % 2 ^ 8⟩, sdhDivided src div)

/-- The search ends, the card has the clock that is returned, and a clock is the largest that is not
above the request, of a divider that is written as it is. -/
def SdhClockLaw (inhibit unstable : Nat → Bool) (src req : Nat) : Prop :=
  ∃ turns r ret, sdhSetClock inhibit unstable turns src req = some (r, ret) ∧
    r.cardClock src = ret ∧
    (ret ≠ 0 → sdhDiv turns src req = some r.divider ∧
      IsGreatest {f | f ≤ req ∧ ∃ d < 2 ^ 10, f = sdhDivided src d} ret)

/-- A wait fails, or the request is not between half the source and the source, and at least the
slowest clock, whose divider has 10 bits. -/
def SdhClockKept (inhibit unstable : Nat → Bool) (src req : Nat) : Prop :=
  sdhWait inhibit 0 200 = false ∨ sdhWait unstable 0 200 = false ∨ src ≤ req ∨
    (req ≤ src / 2 ∧ src / 2 / req < 2 ^ 10 ∧ src / 2046 ≤ req)

section Search

variable {src req e : Nat}

theorem sdhDivided_anti {d : Nat} (positive : 0 < d) (le : d ≤ e) :
    sdhDivided src e ≤ sdhDivided src d := by
  rw [sdhDivided, sdhDivided, if_neg (by omega), if_neg (by omega)]
  exact Nat.div_le_div_left (by omega) (by omega)

theorem next_divider_enough (asked : 0 < req) : src / (2 * (src / 2 / req + 1)) ≤ req := by
  have above : src / 2 < req * (src / 2 / req + 1) := Nat.lt_mul_div_succ _ asked
  have whole : src < req * (2 * (src / 2 / req + 1)) := by
    rw [Nat.mul_left_comm]
    omega
  exact (Nat.div_lt_of_lt_mul (by rwa [Nat.mul_comm] at whole)).le

theorem first_divider_le (low : 0 < src / 2 / req) : req ≤ src / (2 * (src / 2 / req)) := by
  rw [Nat.le_div_iff_mul_le (by omega)]
  have below : src / 2 / req * req ≤ src / 2 := Nat.div_mul_le_self _ _
  calc req * (2 * (src / 2 / req)) = 2 * (src / 2 / req * req) := by ring
    _ ≤ src := by omega

def sdhFound (src req : Nat) : Nat :=
  if src / (2 * (src / 2 / req)) > req then src / 2 / req + 1 else src / 2 / req

theorem sdhDivSearch_succ (turns d : Nat) (positive : 0 < d) (small : 2 * d < 2 ^ 32) :
    sdhDivSearch src req (turns + 1) d =
      if src / (2 * d) > req then sdhDivSearch src req turns (d + 1) else some d := by
  rw [sdhDivSearch]
  simp only [Nat.mod_eq_of_lt small, show 2 * d ≠ 0 by omega, if_false]
  rw [Nat.mod_eq_of_lt (by omega)]

theorem sdhDivSearch_eq (asked : 0 < req) (small : src < 2 ^ 32) (low : 0 < src / 2 / req)
    (turns : Nat) :
    sdhDivSearch src req (turns + 2) (src / 2 / req) = some (sdhFound src req) := by
  have bound : src / 2 / req ≤ src / 2 := Nat.div_le_self _ _
  rw [sdhDivSearch_succ _ _ low (by omega), sdhFound]
  by_cases above : src / (2 * (src / 2 / req)) > req
  · have last : src / (2 * (src / 2 / req + 1)) ≤ req := next_divider_enough asked
    have room : 2 * (src / 2 / req + 1) < 2 ^ 32 := by
      have wide : 2 ≤ src / (2 * (src / 2 / req)) := by omega
      rw [Nat.le_div_iff_mul_le (by omega)] at wide
      omega
    rw [if_pos above, if_pos above, sdhDivSearch_succ _ _ (by omega) room, if_neg (by omega)]
  · rw [if_neg above, if_neg above]

theorem sdhDivSearch_found (asked : 0 < req) (small : src < 2 ^ 32) (low : 0 < src / 2 / req)
    (turns : Nat) {d : Nat}
    (found : sdhDivSearch src req turns (src / 2 / req) = some d) : d = sdhFound src req := by
  have bound : src / 2 / req ≤ src / 2 := Nat.div_le_self _ _
  match turns with
  | 0 => cases found
  | 1 =>
    rw [sdhDivSearch_succ _ _ low (by omega)] at found
    rw [sdhFound]
    split at found
    · cases found
    · rw [if_neg ‹_›]
      exact (Option.some.inj found).symm
  | turns + 2 =>
    rw [sdhDivSearch_eq asked small low] at found
    exact (Option.some.inj found).symm

theorem sdhFound_pos (low : 0 < src / 2 / req) : 0 < sdhFound src req := by
  rw [sdhFound]
  split <;> omega

theorem sdhFound_le (asked : 0 < req) : src / (2 * sdhFound src req) ≤ req := by
  rw [sdhFound]
  split
  · exact next_divider_enough asked
  · omega

theorem sdhFound_clock (asked : 0 < req) (low : 0 < src / 2 / req) :
    0 < src / (2 * sdhFound src req) := by
  rw [Nat.div_pos_iff]
  refine ⟨Nat.mul_pos two_pos (sdhFound_pos low), ?_⟩
  have below : 2 * (src / 2 / req) ≤ src := by
    have quotient : src / 2 / req ≤ src / 2 := Nat.div_le_self _ _
    omega
  rw [sdhFound]
  split
  · rename_i above
    have wide : 2 ≤ src / (2 * (src / 2 / req)) := by omega
    rw [Nat.le_div_iff_mul_le (by omega)] at wide
    omega
  · exact below

theorem sdhFound_greatest (low : 0 < src / 2 / req) (le : sdhDivided src e ≤ req) :
    sdhDivided src e ≤ src / (2 * sdhFound src req) := by
  have found : sdhDivided src (sdhFound src req) = src / (2 * sdhFound src req) :=
    if_neg (sdhFound_pos low).ne'
  have first : sdhDivided src (src / 2 / req) = src / (2 * (src / 2 / req)) := if_neg low.ne'
  by_cases after : sdhFound src req ≤ e
  · rw [← found]
    exact sdhDivided_anti (sdhFound_pos low) after
  by_cases none : e = 0
  · obtain ⟨asked, half⟩ : 0 < req ∧ req ≤ src / 2 := Nat.div_pos_iff.1 low
    rw [sdhDivided, if_pos none] at le
    omega
  · have before : e ≤ src / 2 / req := by
      rw [sdhFound] at after
      split at after <;> omega
    have faster : sdhDivided src (src / 2 / req) ≤ sdhDivided src e :=
      sdhDivided_anti (by omega) before
    have reached : req ≤ src / (2 * (src / 2 / req)) := first_divider_le low
    rw [first] at faster
    rw [sdhFound, if_neg (by omega)]
    omega

theorem sdhFound_fits (asked : 0 < req) :
    sdhFound src req < 2 ^ 10 ↔ src / 2 / req < 2 ^ 10 ∧ src / 2046 ≤ req := by
  rw [sdhFound]
  by_cases last : src / 2 / req = 1023
  · rw [last]
    split <;> omega
  · by_cases less : src / 2 / req < 1023
    · have slow : src / 2046 ≤ req := by
        have whole : src / (2 * (src / 2 / req + 1)) ≤ req := next_divider_enough asked
        have within : 2 * (src / 2 / req + 1) ≤ 2046 := by omega
        exact (Nat.div_le_div_left within (Nat.mul_pos two_pos (Nat.succ_pos _))).trans whole
      split <;> omega
    · split <;> omega

end Search

theorem sdhDivider_eq (div : Nat) :
    SdhClkCtrl.divider ⟨true, true, div / 2 ^ 8 % 2 ^ 2, div % 2 ^ 8⟩ = div % 2 ^ 10 := by
  simp only [SdhClkCtrl.divider]
  omega

section Law

variable {inhibit unstable : Nat → Bool} {src req : Nat}

theorem sdhSetClock_ready (asked : 0 < req) (idle : sdhWait inhibit 0 200 = true)
    (stable : sdhWait unstable 0 200 = true) (turns : Nat) :
    sdhSetClock inhibit unstable turns src req = (sdhDiv turns src req).map fun div =>
      (⟨true, true, div / 2 ^ 8 % 2 ^ 2, div % 2 ^ 8⟩, sdhDivided src div) := by
  rw [sdhSetClock, if_neg asked.ne', if_neg (by simp [idle])]
  cases sdhDiv turns src req with
  | none => rfl
  | some div => exact if_neg (by simp [stable])

theorem sdhSetClock_failed (asked : 0 < req) (small : src < 2 ^ 32)
    (failed : sdhWait inhibit 0 200 = false ∨ sdhWait unstable 0 200 = false) :
    sdhSetClock inhibit unstable 2 src req = some (.off, 0) := by
  rw [sdhSetClock, if_neg asked.ne']
  by_cases busy : sdhWait inhibit 0 200 = false
  · rw [if_pos busy]
  · obtain ⟨div, found⟩ : ∃ div, sdhDiv 2 src req = some div := by
      rw [sdhDiv]
      by_cases low : 0 < src / 2 / req
      · exact ⟨_, (if_pos low).trans (sdhDivSearch_eq asked small low 0)⟩
      · exact ⟨_, if_neg low⟩
    rw [if_neg busy, found]
    exact if_pos (failed.resolve_left busy)

theorem sdhClockLaw_found (asked : 0 < req) (idle : sdhWait inhibit 0 200 = true)
    (stable : sdhWait unstable 0 200 = true) {d : Nat} (found : sdhDiv 2 src req = some d)
    (only : ∀ turns e, sdhDiv turns src req = some e → e = d) (clock : 0 < sdhDivided src d) :
    SdhClockLaw inhibit unstable src req ↔
      d < 2 ^ 10 ∧ sdhDivided src d ≤ req ∧
        ∀ e < 2 ^ 10, sdhDivided src e ≤ req → sdhDivided src e ≤ sdhDivided src d := by
  constructor
  · rintro ⟨turns, r, ret, run, -, best⟩
    rw [sdhSetClock_ready asked idle stable, Option.map_eq_some_iff] at run
    obtain ⟨e, searched, same⟩ := run
    obtain rfl : e = d := only turns e searched
    cases same
    obtain ⟨written, ⟨below, -⟩, greatest⟩ := best clock.ne'
    rw [searched, sdhDivider_eq] at written
    refine ⟨by have fits := Option.some.inj written; omega, below, fun e fits le => ?_⟩
    exact greatest ⟨le, e, fits, rfl⟩
  · rintro ⟨fits, below, greatest⟩
    have whole : d % 2 ^ 10 = d := Nat.mod_eq_of_lt fits
    refine ⟨2, ⟨true, true, d / 2 ^ 8 % 2 ^ 2, d % 2 ^ 8⟩, sdhDivided src d, ?_, ?_, fun _ => ?_⟩
    · rw [sdhSetClock_ready asked idle stable, found]
      rfl
    · rw [SdhClkCtrl.cardClock, if_pos rfl, sdhDivider_eq, whole]
    · rw [sdhDivider_eq, whole]
      refine ⟨found, ⟨below, d, fits, rfl⟩, ?_⟩
      rintro _ ⟨le, e, inside, rfl⟩
      exact greatest e inside le

theorem sdhClockLaw_low (asked : 0 < req) (small : src < 2 ^ 32)
    (idle : sdhWait inhibit 0 200 = true) (stable : sdhWait unstable 0 200 = true)
    (low : 0 < src / 2 / req) :
    SdhClockLaw inhibit unstable src req ↔ src / 2 / req < 2 ^ 10 ∧ src / 2046 ≤ req := by
  have found : sdhDiv 2 src req = some (sdhFound src req) :=
    (if_pos low).trans (sdhDivSearch_eq asked small low 0)
  have divided : sdhDivided src (sdhFound src req) = src / (2 * sdhFound src req) :=
    if_neg (sdhFound_pos low).ne'
  have only : ∀ turns e, sdhDiv turns src req = some e → e = sdhFound src req := by
    intro turns e searched
    rw [sdhDiv, if_pos low] at searched
    exact sdhDivSearch_found asked small low turns searched
  have clock : 0 < sdhDivided src (sdhFound src req) := divided ▸ sdhFound_clock asked low
  rw [sdhClockLaw_found asked idle stable found only clock, divided, ← sdhFound_fits asked]
  constructor
  · exact fun best => best.1
  · exact fun fits => ⟨fits, sdhFound_le asked, fun e _ le => sdhFound_greatest low le⟩

theorem sdhClockLaw_bypass (asked : 0 < req) (idle : sdhWait inhibit 0 200 = true)
    (stable : sdhWait unstable 0 200 = true) (high : ¬0 < src / 2 / req) :
    SdhClockLaw inhibit unstable src req ↔ src ≤ req := by
  have found (turns : Nat) : sdhDiv turns src req = some 0 := by
    rw [sdhDiv, if_neg high, Nat.eq_zero_of_not_pos high]
  by_cases none : src = 0
  · subst none
    refine iff_of_true ⟨0, ⟨true, true, 0, 0⟩, 0, ?_, rfl, fun clock => absurd rfl clock⟩
      (Nat.zero_le _)
    rw [sdhSetClock_ready asked idle stable, found]
    rfl
  have only : ∀ turns e, sdhDiv turns src req = some e → e = 0 := fun turns e searched =>
    (Option.some.inj ((found turns).symm.trans searched)).symm
  rw [sdhClockLaw_found asked idle stable (found 2) only (Nat.pos_of_ne_zero none)]
  constructor
  · exact fun best => best.2.1
  · intro all
    refine ⟨by norm_num, all, fun e _ _ => ?_⟩
    rw [sdhDivided]
    split
    · exact le_rfl
    · exact Nat.div_le_self _ _

end Law

/-- For every source clock and every request, whatever the waits find, `SDH_SetClock` gives the card
the largest clock that is not above the request just when a wait fails, the request is not below the
source, or it is at most half of it and the divider fits its field. -/
theorem sdh_clock_iff (inhibit unstable : Nat → Bool) (src req : BitVec 32) (asked : req ≠ 0) :
    SdhClockLaw inhibit unstable src.toNat req.toNat ↔
      SdhClockKept inhibit unstable src.toNat req.toNat := by
  have positive : 0 < req.toNat := BitVec.toNat_pos_of_ne_zero asked
  have small : src.toNat < 2 ^ 32 := src.isLt
  generalize src.toNat = src at small ⊢
  generalize req.toNat = req at positive ⊢
  by_cases failed : sdhWait inhibit 0 200 = false ∨ sdhWait unstable 0 200 = false
  · refine iff_of_true ⟨2, .off, 0, sdhSetClock_failed positive small failed, rfl, ?_⟩ ?_
    · exact fun clock => absurd rfl clock
    · exact or_assoc.1 (.inl failed)
  obtain ⟨idle, stable⟩ : sdhWait inhibit 0 200 = true ∧ sdhWait unstable 0 200 = true := by
    simpa using failed
  simp only [SdhClockKept, idle, stable, Bool.true_eq_false, false_or]
  by_cases low : 0 < src / 2 / req
  · have half : req ≤ src / 2 := (Nat.div_pos_iff.1 low).2
    have below : ¬src ≤ req := by omega
    rw [sdhClockLaw_low positive small idle stable low, or_iff_right below, and_iff_right half]
  · have half : ¬req ≤ src / 2 := fun half => low (Nat.div_pos half positive)
    rw [sdhClockLaw_bypass positive idle stable low, or_iff_left fun between => half between.1]

theorem defaultSpeed_clock : SdhClockLaw (fun _ => false) (fun i => decide (i < 3)) 200000000 25000000 := by
  have asked : (25000000#32 : BitVec 32) ≠ 0 := by decide
  refine (sdh_clock_iff (fun _ => false) (fun i => decide (i < 3)) 200000000#32 25000000#32 asked).2 ?_
  exact .inr (.inr (.inr (by decide)))

theorem nearSource_overclocked :
    ¬SdhClockLaw (fun _ => false) (fun _ => false) 100000000 60000000 := by
  rintro ⟨turns, r, ret, run, -, best⟩
  have whole : sdhSetClock (fun _ => false) (fun _ => false) turns 100000000 60000000 =
      some (⟨true, true, 0, 0⟩, 100000000) := rfl
  rw [whole] at run
  cases run
  obtain ⟨-, ⟨below, -⟩, -⟩ := best (by decide)
  exact absurd below (by decide)

end NuMakerMA35
