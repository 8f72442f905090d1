import NuMakerMA35.CanFdTiming

namespace NuMakerMA35

/-- One phase of a bit: its prescaler and its segments in time quanta. -/
structure CanfdPhase where
  prescaler : Nat
  tseg1 : Nat
  tseg2 : Nat
  rJumpwidth : Nat

namespace CanfdPhase

/-- A value that its register field of `w` bits takes: one less is stored. -/
def FitsField (w v : Nat) : Prop := 0 < v ∧ v < 2 ^ w

structure Widths where
  brp : Nat
  tseg1 : Nat
  tseg2 : Nat
  sjw : Nat

def nbtp : Widths := ⟨9, 8, 7, 7⟩

def dbtp : Widths := ⟨5, 5, 4, 4⟩

/-- The phase divides the clock into bits of the rate, and its register takes it. -/
structure Right (phase : CanfdPhase) (w : Widths) (src pre rate : Nat) : Prop where
  clock : src = pre * phase.prescaler * (1 + phase.tseg1 + phase.tseg2) * rate
  quanta : 1 + phase.tseg1 + phase.tseg2 ∈ timeQuanta
  jump : phase.rJumpwidth ≤ phase.tseg2
  prescalerFits : FitsField w.brp phase.prescaler
  tseg1Fits : FitsField w.tseg1 phase.tseg1
  tseg2Fits : FitsField w.tseg2 phase.tseg2
  jumpFits : FitsField w.sjw phase.rJumpwidth

def ofQuanta (rate : U32) (tq prescaler : Nat) : CanfdPhase :=
  ⟨prescaler, beforeSample rate tq - 1, tq - beforeSample rate tq, (tq + 4) / 5⟩

end CanfdPhase

def JumpHasRoom (rate tq : Nat) : Prop := 800000 ≤ rate ∨ tq = 9 ∨ tq = 10

section Segments

variable {rate : U32} {tq prescaler : Nat}

theorem mem_timeQuanta : tq ∈ timeQuanta ↔ 8 ≤ tq ∧ tq ≤ 25 := by
  simp only [timeQuanta, List.mem_cons, List.not_mem_nil, or_false]
  omega

theorem beforeSample_bounds (rate : U32) (quanta : tq ∈ timeQuanta) :
    6 ≤ beforeSample rate tq ∧ beforeSample rate tq < tq ∧ beforeSample rate tq ≤ 21 ∧
      tq - beforeSample rate tq ≤ 7 := by
  have bounds := mem_timeQuanta.mp quanta
  unfold beforeSample
  split_ifs <;> omega

theorem jump_le_iff (quanta : tq ∈ timeQuanta) :
    (tq + 4) / 5 ≤ tq - beforeSample rate tq ↔ JumpHasRoom rate.toNat tq := by
  have bounds := mem_timeQuanta.mp quanta
  have fast : (1000000 : U32).toNat = 1000000 := rfl
  have middle : (800000 : U32).toNat = 800000 := rfl
  unfold beforeSample JumpHasRoom
  simp only [ge_iff_le, BitVec.le_def, fast, middle]
  split_ifs <;> omega

namespace CanfdPhase

theorem ofQuanta_right_iff {w : Widths} {src pre target : Nat} (quanta : tq ∈ timeQuanta)
    (some : 0 < prescaler) (wide : 5 ≤ w.tseg1 ∧ 4 ≤ w.tseg2 ∧ 4 ≤ w.sjw) :
    (ofQuanta rate tq prescaler).Right w src pre target ↔
      src = pre * prescaler * tq * target ∧ prescaler < 2 ^ w.brp ∧ JumpHasRoom rate.toNat tq := by
  have bounds := mem_timeQuanta.mp quanta
  obtain ⟨low, below, high, second⟩ := beforeSample_bounds rate quanta
  have sum : 1 + (beforeSample rate tq - 1) + (tq - beforeSample rate tq) = tq := by omega
  have room1 : 2 ^ 5 ≤ 2 ^ w.tseg1 := Nat.pow_le_pow_right (by omega) wide.1
  have room2 : 2 ^ 4 ≤ 2 ^ w.tseg2 := Nat.pow_le_pow_right (by omega) wide.2.1
  have room3 : 2 ^ 4 ≤ 2 ^ w.sjw := Nat.pow_le_pow_right (by omega) wide.2.2
  constructor
  · intro right
    have clock := right.clock
    dsimp only [ofQuanta] at clock
    rw [sum] at clock
    exact ⟨clock, right.prescalerFits.2, (jump_le_iff quanta).mp right.jump⟩
  · rintro ⟨clock, small, room⟩
    exact {
      clock := by
        dsimp only [ofQuanta]
        rw [sum]
        exact clock
      quanta := by
        dsimp only [ofQuanta]
        rw [sum]
        exact quanta
      jump := (jump_le_iff quanta).mpr room
      prescalerFits := ⟨some, small⟩
      tseg1Fits := by
        unfold FitsField ofQuanta
        dsimp only
        omega
      tseg2Fits := by
        unfold FitsField ofQuanta
        dsimp only
        omega
      jumpFits := by
        unfold FitsField ofQuanta
        dsimp only
        omega }

end CanfdPhase

end Segments

namespace CanfdTimeingConfigT

variable (config : CanfdTimeingConfigT)

def nominalPhase : CanfdPhase :=
  ⟨config.nominalPrescaler.toNat, config.nominalPhaseSeg1.toNat + config.nominalPropSeg.toNat,
    config.nominalPhaseSeg2.toNat, config.nominalRJumpwidth.toNat⟩

def dataPhase : CanfdPhase :=
  ⟨config.dataPrescaler.toNat, config.dataPhaseSeg1.toNat + config.dataPropSeg.toNat,
    config.dataPhaseSeg2.toNat, config.dataRJumpwidth.toNat⟩

/-- What a configuration for these bit rates and this clock is to be. There is a data phase only
where FD operation is on. -/
structure Right (fdoe : Bool) (nominal data src : Nat) : Prop where
  divider : 1 ≤ config.preDivider.toNat ∧ config.preDivider.toNat ≤ 8
  nominalRight : config.nominalPhase.Right CanfdPhase.nbtp src config.preDivider.toNat nominal
  dataRight : fdoe = true →
    config.dataPhase.Right CanfdPhase.dbtp src config.preDivider.toNat data

variable {nominal data : U32} {ntq dtq : Nat}

@[simp] theorem getSegments_preDivider :
    (config.getSegments nominal data ntq dtq).preDivider = config.preDivider := by
  unfold getSegments
  split_ifs <;> rfl

theorem getSegments_nominalPhase (quanta : ntq ∈ timeQuanta) :
    (config.getSegments nominal data ntq dtq).nominalPhase =
      CanfdPhase.ofQuanta nominal ntq config.nominalPrescaler.toNat := by
  have bounds := mem_timeQuanta.mp quanta
  have sample := beforeSample_bounds nominal quanta
  have fields : (config.getSegments nominal data ntq dtq).nominalPhase =
      ⟨config.nominalPrescaler.toNat, (beforeSample nominal ntq - 1) % 2 ^ 8 + 0,
        (ntq - beforeSample nominal ntq) % 2 ^ 8, (ntq + 4) / 5 % 2 ^ 8⟩ := by
    unfold getSegments
    split_ifs <;> rfl
  rw [fields, Nat.mod_eq_of_lt (by omega), Nat.mod_eq_of_lt (by omega), Nat.mod_eq_of_lt (by omega)]
  rfl

theorem getSegments_dataPhase (quanta : dtq ∈ timeQuanta) :
    (config.getSegments nominal data ntq dtq).dataPhase =
      CanfdPhase.ofQuanta data dtq config.dataPrescaler.toNat := by
  have bounds := mem_timeQuanta.mp quanta
  have sample := beforeSample_bounds data quanta
  have fields : (config.getSegments nominal data ntq dtq).dataPhase =
      ⟨config.dataPrescaler.toNat, (beforeSample data dtq - 1) % 2 ^ 8 + 0,
        (dtq - beforeSample data dtq) % 2 ^ 8, (dtq + 4) / 5 % 2 ^ 8⟩ := by
    unfold getSegments
    rw [if_pos (by omega)]
    rfl
  rw [fields, Nat.mod_eq_of_lt (by omega), Nat.mod_eq_of_lt (by omega), Nat.mod_eq_of_lt (by omega)]
  rfl

end CanfdTimeingConfigT

section Written

open CanfdPhase

theorem lessOneAt_toNat {w pos : Nat} {v msk : U32} (all : msk.toNat = 2 ^ w - 1)
    (place : w + pos ≤ 32) (fits : FitsField w v.toNat) :
    (lessOneAt v msk pos).toNat = (v.toNat - 1) * 2 ^ pos := by
  have kept : (v &&& msk).toNat = v.toNat := by
    rw [BitVec.toNat_and, all, Nat.and_two_pow_sub_one_eq_mod, Nat.mod_eq_of_lt fits.2]
  have word := v.isLt
  have less : ((v &&& msk) - 1).toNat = v.toNat - 1 := by
    have one : (1 : U32).toNat = 1 := rfl
    have some := fits.1
    rw [BitVec.toNat_sub, kept, one]
    omega
  have small : (v.toNat - 1) * 2 ^ pos < 2 ^ 32 := by
    calc (v.toNat - 1) * 2 ^ pos < 2 ^ w * 2 ^ pos :=
          Nat.mul_lt_mul_of_pos_right (by have := fits.2; omega) (Nat.two_pow_pos pos)
      _ = 2 ^ (w + pos) := (Nat.pow_add 2 w pos).symm
      _ ≤ 2 ^ 32 := Nat.pow_le_pow_right (by omega) place
  rw [lessOneAt, BitVec.toNat_shiftLeft, less, Nat.shiftLeft_eq, Nat.mod_eq_of_lt small]

theorem lessOneAt_widened {w pos n : Nat} {v : BitVec n} {msk : U32} (narrow : n ≤ 32)
    (all : msk.toNat = 2 ^ w - 1) (place : w + pos ≤ 32) (fits : FitsField w v.toNat) :
    (lessOneAt (v.setWidth 32) msk pos).toNat = (v.toNat - 1) * 2 ^ pos := by
  have word : (v.setWidth 32).toNat = v.toNat := BitVec.toNat_setWidth_of_le narrow
  rw [lessOneAt_toNat all place (by rw [word]; exact fits), word]

theorem segments_toNat (seg1 prop : BitVec 8) :
    (seg1.setWidth 32 + prop.setWidth 32 : U32).toNat = seg1.toNat + prop.toNat := by
  have := seg1.isLt
  have := prop.isLt
  rw [BitVec.toNat_add, BitVec.toNat_setWidth, BitVec.toNat_setWidth]
  omega

theorem field_read {a v : U32} {pos : Nat} (place : pos + 3 ≤ 32) (small : v.toNat < 8) :
    ((a &&& ~~~((7 : U32) <<< pos)) ||| v <<< pos) >>> pos &&& 7 = v := by
  have seven : ∀ i, (7 : U32).getLsbD i = decide (i < 3) := by
    intro i
    have bits : (7 : U32).getLsbD i = Nat.testBit 7 i := rfl
    rw [bits, show 7 = 2 ^ 3 - 1 from rfl, Nat.testBit_two_pow_sub_one]
  apply BitVec.eq_of_getLsbD_eq
  intro i inside
  rw [BitVec.getLsbD_and, BitVec.getLsbD_ushiftRight, BitVec.getLsbD_or, BitVec.getLsbD_and,
    BitVec.getLsbD_not, BitVec.getLsbD_shiftLeft, BitVec.getLsbD_shiftLeft, seven, seven,
    Nat.add_sub_cancel_left]
  by_cases low : i < 3
  · have here : pos + i < 32 := by omega
    have after : ¬pos + i < pos := by omega
    simp [low, here, after]
  · have none : v.getLsbD i = false := by
      apply Nat.testBit_lt_two_pow
      exact small.trans_le (Nat.pow_le_pow_right (n := 2) (by omega) (show 3 ≤ i by omega))
    rw [none]
    simp [low]

variable {config : CanfdTimeingConfigT} {regs : CanfdTimingRegs} {fdoe : Bool} {divPos : Nat}
  {nominal data src : Nat}

theorem setTimingConfig_clkdiv0 (right : config.Right fdoe nominal data src)
    (place : divPos + 3 ≤ 32) :
    ((regs.setTimingConfig divPos fdoe config).clkdiv0 >>> divPos &&& 7).toNat =
      config.preDivider.toNat - 1 := by
  have bounds := right.divider
  have value : (config.preDivider.setWidth 32 - 1).toNat = config.preDivider.toNat - 1 := by
    have one : (1 : U32).toNat = 1 := rfl
    have word : (config.preDivider.setWidth 32).toNat = config.preDivider.toNat :=
      BitVec.toNat_setWidth_of_le (by omega)
    rw [BitVec.toNat_sub, word, one]
    omega
  have read := field_read (a := regs.clkdiv0) place (show
    (config.preDivider.setWidth 32 - 1).toNat < 8 by omega)
  rw [← value, ← read]
  rfl

theorem setTimingConfig_nbtp (right : config.Right fdoe nominal data src) :
    (regs.setTimingConfig divPos fdoe config).nbtp.toNat =
      (config.nominalPhase.rJumpwidth - 1) * 2 ^ 25 + (config.nominalPhase.prescaler - 1) * 2 ^ 16 +
        (config.nominalPhase.tseg1 - 1) * 2 ^ 8 + (config.nominalPhase.tseg2 - 1) * 2 ^ 0 := by
  obtain ⟨clock, quanta, jump, brp, tseg1, tseg2, sjw⟩ := right.nominalRight
  dsimp only [CanfdTimeingConfigT.nominalPhase, nbtp] at brp tseg1 tseg2 sjw ⊢
  unfold CanfdTimingRegs.setTimingConfig
  dsimp only
  rw [BitVec.toNat_add, BitVec.toNat_add, BitVec.toNat_add,
    lessOneAt_widened (w := 7) (by decide) rfl (by decide) sjw,
    lessOneAt_widened (w := 9) (by decide) rfl (by decide) brp,
    lessOneAt_toNat (w := 8) rfl (by decide) (by rw [segments_toNat]; exact tseg1),
    lessOneAt_widened (w := 7) (by decide) rfl (by decide) tseg2, segments_toNat]
  unfold FitsField at brp tseg1 tseg2 sjw
  omega

theorem setTimingConfig_dbtp (right : config.Right true nominal data src) :
    (regs.setTimingConfig divPos true config).dbtp.toNat =
      (config.dataPhase.prescaler - 1) * 2 ^ 16 + (config.dataPhase.tseg1 - 1) * 2 ^ 8 +
        (config.dataPhase.tseg2 - 1) * 2 ^ 4 + (config.dataPhase.rJumpwidth - 1) * 2 ^ 0 := by
  obtain ⟨clock, quanta, jump, brp, tseg1, tseg2, sjw⟩ := right.dataRight rfl
  dsimp only [CanfdTimeingConfigT.dataPhase, dbtp] at brp tseg1 tseg2 sjw ⊢
  unfold CanfdTimingRegs.setTimingConfig
  dsimp only
  rw [if_pos rfl, BitVec.toNat_add, BitVec.toNat_add, BitVec.toNat_add,
    lessOneAt_widened (w := 5) (by decide) rfl (by decide) brp,
    lessOneAt_toNat (w := 5) rfl (by decide) (by rw [segments_toNat]; exact tseg1),
    lessOneAt_widened (w := 4) (by decide) rfl (by decide) tseg2,
    lessOneAt_widened (w := 4) (by decide) rfl (by decide) sjw, segments_toNat]
  unfold FitsField at brp tseg1 tseg2 sjw
  omega

end Written

end NuMakerMA35
