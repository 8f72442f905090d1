import NuMakerMA35.Checked
import NuMakerMA35.I2s
import NuMakerMA35.MaskedWrite
import NuMakerMA35.Nearest
import Mathlib.Algebra.Order.Field.Basic
import Mathlib.Algebra.Order.Floor.Semifield
import Mathlib.Data.Rat.Floor
import Mathlib.Tactic.FieldSimp
import Mathlib.Tactic.Positivity
import Mathlib.Tactic.Ring

namespace NuMakerMA35

open Checked

inductive I2sBase where
  | i2s0
  | i2s1
  deriving DecidableEq

/-- What the source clock depends on: the selection, and the frequencies to select from. -/
structure I2sClk where
  clksel4 : U32
  apll : U32
  sysclk1 : U32

def I2sBase.selMsk : I2sBase → U32
  | .i2s0 => 0x3 <<< 12
  | .i2s1 => 0x3 <<< 14

def I2sBase.selSysclk1Div2 : I2sBase → U32
  | .i2s0 => 0x1 <<< 12
  | .i2s1 => 0x1 <<< 14

def clkClksel4I2s0selApll : U32 := 0x0 <<< 12
def clkClksel4I2s0selSysclk1Div2 : U32 := 0x1 <<< 12

/-- `I2S_GetSourceClockFreq`: the selections compared with are those of I2S0. -/
def i2sGetSourceClockFreq (clk : I2sClk) (i2s : I2sBase) : U32 :=
  let clkSrcSel := clk.clksel4 &&& i2s.selMsk
  if clkSrcSel = clkClksel4I2s0selApll then clk.apll
  else if clkSrcSel = clkClksel4I2s0selSysclk1Div2 then clk.sysclk1 / 2
  else clk.apll

/-- The clock part of `I2S_Open`, after the reset: the register and the real sample rate. -/
def i2sOpenClkdiv (srcClk sampleRate wordWidth : U32) : Checked (U32 × Nat) := do
  let words := (wordWidth >>> 4 &&& 0x3).toNat + 1
  let bitRate ← fit 32 (sampleRate.toNat * words)
  let bitRate ← fit 32 (bitRate * 16)
  let tenfold ← fit 32 (srcClk.toNat * 10)
  let quotient ← quot tenfold bitRate
  let sum ← fit 32 (quotient / 2 + 5)
  let cast ← fit 16 (sum / 10)
  let divider ← less 16 cast 1
  let clkdiv := (0 : U32) &&& ~~~i2sClkdivBclkdivMsk ||| BitVec.ofNat 32 divider <<< 8
  let twice ← fit 32 (2 * (divider + 1))
  let bitRate ← quot srcClk.toNat twice
  let rate ← quot bitRate (words * 16)
  pure (clkdiv, rate)

def i2sEnableMclkClkdiv (srcClk busClock clkdiv : U32) : Checked (U32 × Nat) := do
  let divider ← (if busClock = srcClk then pure 0 else do
      let quotient ← quot srcClk.toNat busClock.toNat
      let cast ← fit 8 quotient
      pure (cast / 2))
  let clkdiv := clkdiv &&& ~~~i2sClkdivMclkdivMsk ||| BitVec.ofNat 32 divider
  let reg := (clkdiv &&& i2sClkdivMclkdivMsk).toNat
  let clock ← (if reg = 0 then pure srcClk.toNat else quot (srcClk.toNat / 2) reg)
  pure (clkdiv, clock)

def I2sClk.own (clk : I2sClk) (i2s : I2sBase) : U32 :=
  if clk.clksel4 &&& i2s.selMsk = i2s.selSysclk1Div2 then clk.sysclk1 / 2 else clk.apll

def i2sFrame (wordWidth : U32) : Nat := ((wordWidth >>> 4 &&& 0x3).toNat + 1) * 16

def i2sRate (src frame k : Nat) : ℚ := src / (2 * (k + 1)) / frame

def i2sMclk (src k : Nat) : ℚ := if k = 0 then src else src / (2 * k)

/-- Nothing is lost, the divider is in its field alone, the rate returned is that of the divider by
the instance's own clock, and no other divider gives a nearer one. -/
def I2sOpenLaw (clk : I2sClk) (i2s : I2sBase) (sampleRate wordWidth : U32) : Prop :=
  let done := i2sOpenClkdiv (i2sGetSourceClockFreq clk i2s) sampleRate wordWidth
  let rate := i2sRate (clk.own i2s).toNat (i2sFrame wordWidth)
  let k := ((done.val.1 &&& i2sClkdivBclkdivMsk) >>> 8).toNat
  i2sGetSourceClockFreq clk i2s = clk.own i2s ∧ done.ok = true ∧
    done.val.1 &&& ~~~i2sClkdivBclkdivMsk = 0 ∧ done.val.2 = ⌊rate k⌋₊ ∧
      ∀ j ≤ 1023, |rate k - sampleRate.toNat| ≤ |rate j - sampleRate.toNat|

def I2sMclkLaw (clk : I2sClk) (i2s : I2sBase) (busClock clkdiv : U32) : Prop :=
  let done := i2sEnableMclkClkdiv (i2sGetSourceClockFreq clk i2s) busClock clkdiv
  let clock := i2sMclk (clk.own i2s).toNat
  let k := (done.val.1 &&& i2sClkdivMclkdivMsk).toNat
  i2sGetSourceClockFreq clk i2s = clk.own i2s ∧ done.ok = true ∧
    done.val.1 &&& ~~~i2sClkdivMclkdivMsk = clkdiv &&& ~~~i2sClkdivMclkdivMsk ∧
      done.val.2 = ⌊clock k⌋₊ ∧ ∀ j ≤ 127, |clock k - busClock.toNat| ≤ |clock j - busClock.toNat|

/-- The instance selects what I2S0's selection finds, or both clocks are equal. -/
def I2sSourceKept (clk : I2sClk) (i2s : I2sBase) : Prop :=
  i2s = .i2s0 ∨ clk.clksel4 &&& i2s.selMsk ≠ i2s.selSysclk1Div2 ∨ clk.apll = clk.sysclk1 / 2

/-- The products fit, the source is at least as fast as the bits and at most as the largest divider
lets it be, and the request is not below the middle between the two rates around it. -/
def I2sOpenKept (src bits : Nat) : Prop :=
  let q := (src + bits) / (2 * bits)
  src * 10 < 2 ^ 32 ∧ bits < 2 ^ 32 ∧ bits ≤ src ∧ q ≤ 1024 ∧
    (q = 1024 ∨ src * (2 * q + 1) ≤ 4 * bits * (q * (q + 1)))

/-- The quotient fits 8 bits, and the request is not below the middle between the two clocks around
it. -/
def I2sMclkKept (src busClock : Nat) : Prop :=
  let k := src / busClock / 2
  src / busClock < 256 ∧
    (k = 0 → 3 * src ≤ 4 * busClock) ∧
      (1 ≤ k → k < 127 → src * (2 * k + 1) ≤ 4 * busClock * (k * (k + 1)))

section Source

variable {clk : I2sClk} {i2s : I2sBase}

theorem i2s1_source (clk : I2sClk) : i2sGetSourceClockFreq clk .i2s1 = clk.apll := by
  have apart : clk.clksel4 &&& I2sBase.selMsk .i2s1 ≠ clkClksel4I2s0selSysclk1Div2 := by
    intro same
    have bit := congrArg (fun x => x &&& clkClksel4I2s0selSysclk1Div2) same
    rw [BitVec.and_assoc, show I2sBase.selMsk .i2s1 &&& clkClksel4I2s0selSysclk1Div2 = 0#32 from rfl,
      BitVec.and_zero] at bit
    exact absurd bit (by decide)
  unfold i2sGetSourceClockFreq
  dsimp only
  rw [if_neg apart]
  split_ifs <;> rfl

theorem i2sSource_iff : i2sGetSourceClockFreq clk i2s = clk.own i2s ↔ I2sSourceKept clk i2s := by
  unfold I2sSourceKept I2sClk.own
  cases i2s with
  | i2s0 =>
    refine iff_of_true ?_ (Or.inl rfl)
    unfold i2sGetSourceClockFreq
    dsimp only
    change _ = if clk.clksel4 &&& I2sBase.selMsk .i2s0 = clkClksel4I2s0selSysclk1Div2
      then clk.sysclk1 / 2 else clk.apll
    by_cases half : clk.clksel4 &&& I2sBase.selMsk .i2s0 = clkClksel4I2s0selSysclk1Div2
    · rw [half, if_neg (by decide)]
    · rw [if_neg half]
      split_ifs <;> rfl
  | i2s1 =>
    rw [i2s1_source]
    by_cases half : clk.clksel4 &&& I2sBase.selMsk .i2s1 = I2sBase.selSysclk1Div2 .i2s1
    · rw [if_pos half]
      simp [half]
    · rw [if_neg half]
      exact iff_of_true rfl (Or.inr (Or.inl half))

end Source

section BitClock

variable {src bits q frame k : Nat} {rate : Nat}

theorem rounded_divider (some : 0 < bits) :
    (src * 10 / bits / 2 + 5) / 10 = (src + bits) / (2 * bits) := by
  have middle : src * 10 / (bits * 2) + 5 = (10 * (src + bits)) / (bits * 2) := by
    rw [← Nat.add_mul_div_right _ _ (by omega)]
    congr 1
    ring
  rw [Nat.div_div_eq_div_mul, middle, Nat.div_div_eq_div_mul, Nat.mul_comm (bits * 2),
    Nat.mul_div_mul_left _ _ (by decide), Nat.mul_comm bits]

theorem i2sRate_down (sSome : 0 < src) (fSome : 0 < frame) (i j : Nat) (less : i < j) :
    i2sRate src frame j < i2sRate src frame i := by
  have positive : (0 : ℚ) < src := by exact_mod_cast sSome
  have fPositive : (0 : ℚ) < frame := by exact_mod_cast fSome
  have more : (i : ℚ) < j := by exact_mod_cast less
  have iPositive : (0 : ℚ) ≤ i := Nat.cast_nonneg i
  unfold i2sRate
  apply div_lt_div_of_pos_right _ fPositive
  exact div_lt_div_of_pos_left positive (by linarith) (by linarith)

theorem floor_i2sRate (src frame k : Nat) :
    ⌊i2sRate src frame k⌋₊ = src / (2 * (k + 1)) / frame := by
  have cast : i2sRate src frame k = ((src : Nat) : ℚ) / ((2 * (k + 1) * frame : Nat) : ℚ) := by
    unfold i2sRate
    push_cast
    rw [div_div]
  rw [cast, Nat.floor_div_eq_div, Nat.div_div_eq_div_mul]

theorem i2sRate_middle (fSome : 0 < frame) (k : Nat) :
    (i2sRate src frame k + i2sRate src frame (k + 1) ≤ 2 * rate ↔
        src * (2 * k + 3) ≤ 4 * (rate * frame) * ((k + 1) * (k + 2))) ∧
      (2 * rate ≤ i2sRate src frame k + i2sRate src frame (k + 1) ↔
        4 * (rate * frame) * ((k + 1) * (k + 2)) ≤ src * (2 * k + 3)) := by
  have fPositive : (0 : ℚ) < frame := by exact_mod_cast fSome
  have kPositive : (0 : ℚ) ≤ k := Nat.cast_nonneg k
  have sum : i2sRate src frame k + i2sRate src frame (k + 1) =
      src * (2 * k + 3) / (2 * ((k + 1) * (k + 2)) * frame) := by
    unfold i2sRate
    push_cast
    field_simp
    ring
  have positive : (0 : ℚ) < 2 * ((k + 1) * (k + 2)) * frame := by positivity
  rw [sum, div_le_iff₀ positive, le_div_iff₀ positive, ← @Nat.cast_le ℚ,
    ← @Nat.cast_le ℚ]
  push_cast
  constructor
  · constructor <;> intro h <;> linarith
  · constructor <;> intro h <;> linarith

theorem i2sRate_nearest_iff (fSome : 0 < frame) (rSome : 0 < rate) (fast : rate * frame ≤ src)
    (value : q = (src + rate * frame) / (2 * (rate * frame))) (most : q ≤ 1024) :
    (∀ j ≤ 1023, |i2sRate src frame (q - 1) - rate| ≤ |i2sRate src frame j - rate|) ↔
      (q = 1024 ∨ src * (2 * q + 1) ≤ 4 * (rate * frame) * (q * (q + 1))) := by
  have some : 0 < rate * frame := Nat.mul_pos rSome fSome
  have down : q * (2 * (rate * frame)) ≤ src + rate * frame := by
    rw [value]
    exact Nat.div_mul_le_self _ _
  have one : 1 ≤ q := by
    rw [value, Nat.le_div_iff_mul_le (by omega)]
    omega
  obtain ⟨p, rfl⟩ : ∃ p, q = p + 1 := ⟨q - 1, by omega⟩
  rw [Nat.add_sub_cancel, Nearest.iff_middles (i2sRate_down (by omega) fSome) (by omega),
    (i2sRate_middle fSome p).1]
  have above : p = 0 ∨ (2 * rate : ℚ) ≤ i2sRate src frame (p - 1) + i2sRate src frame p := by
    cases p with
    | zero => exact Or.inl rfl
    | succ o =>
      refine Or.inr ((i2sRate_middle fSome o).2.mpr ?_)
      -- the source is at least the lower end of what rounds to the divider
      have low : rate * frame * (2 * o + 3) ≤ src := by
        rw [Nat.mul_comm (rate * frame)]
        have split : (o + 1 + 1) * (2 * (rate * frame)) =
          (2 * o + 3) * (rate * frame) + rate * frame := by ring
        omega
      calc 4 * (rate * frame) * ((o + 1) * (o + 2))
          ≤ 4 * (rate * frame) * ((o + 1) * (o + 2)) + rate * frame := Nat.le_add_right _ _
        _ = rate * frame * (2 * o + 3) * (2 * o + 3) := by ring
        _ ≤ src * (2 * o + 3) := Nat.mul_le_mul_right _ low
  rw [and_iff_right above, show (p + 1 = 1024) = (p = 1023) by simp,
    show 2 * (p + 1) + 1 = 2 * p + 3 by ring]

end BitClock

section Open

variable {clk : I2sClk} {i2s : I2sBase} {srcClk sampleRate wordWidth : U32} {q : Nat}

theorem i2sFrame_pos (wordWidth : U32) : 0 < i2sFrame wordWidth := by
  unfold i2sFrame
  omega

theorem wordWidth_le (wordWidth : U32) : (wordWidth >>> 4 &&& 0x3).toNat ≤ 3 := by
  rw [BitVec.toNat_and]
  exact Nat.and_le_right

theorem i2sDivider_eq (tenfold bitRate : U32) :
    ((((tenfold / bitRate) >>> 1) + 5) / 10).setWidth 16 - 1 =
      BitVec.ofNat 16 (less 16 (fit 16
        ((fit 32 ((quot tenfold.toNat bitRate.toNat).val / 2 + 5)).val / 10)).val 1).val := by
  have half : ((tenfold / bitRate) >>> 1).toNat = tenfold.toNat / bitRate.toNat / 2 := by
    rw [BitVec.toNat_ushiftRight, BitVec.toNat_udiv, Nat.shiftRight_eq_div_pow, Nat.pow_one]
  have sum : (((tenfold / bitRate) >>> 1) + 5).toNat =
      (tenfold.toNat / bitRate.toNat / 2 + 5) % 2 ^ 32 := by
    rw [BitVec.toNat_add, half]
    rfl
  apply BitVec.eq_of_toNat_eq
  unfold less fit quot
  dsimp only
  rw [BitVec.toNat_sub, BitVec.toNat_setWidth, BitVec.toNat_udiv, sum, BitVec.toNat_ofNat,
    Nat.mod_mod]
  change (2 ^ 16 - 1 + _ / 10 % 2 ^ 16) % 2 ^ 16 = _
  congr 1
  omega

theorem i2sOpen_clkdiv (s : NuI2s)
    (srcClk masterSlave sampleRate wordWidth monoData dataFormat : U32) :
    (s.i2sOpen srcClk masterSlave sampleRate wordWidth monoData dataFormat).clkdiv =
      (i2sOpenClkdiv srcClk sampleRate wordWidth).val.1 := by
  have words : ((wordWidth >>> 4 &&& 0x3) + 1).toNat = (wordWidth >>> 4 &&& 0x3).toNat + 1 := by
    have low := wordWidth_le wordWidth
    rw [BitVec.toNat_add]
    exact Nat.mod_eq_of_lt (by change _ + 1 < _; omega)
  have bitRate : (sampleRate * ((wordWidth >>> 4 &&& 0x3) + 1) * 16).toNat =
      (fit 32 ((fit 32
        (sampleRate.toNat * ((wordWidth >>> 4 &&& 0x3).toNat + 1))).val * 16)).val := by
    rw [BitVec.toNat_mul, BitVec.toNat_mul, words]
    rfl
  have tenfold : (srcClk * 10).toNat = (fit 32 (srcClk.toNat * 10)).val := BitVec.toNat_mul _ _
  have held (x : Nat) : (BitVec.ofNat 16 (less 16 x 1).val).setWidth 32 =
      BitVec.ofNat 32 (less 16 x 1).val := by
    have small : (less 16 x 1).val < 2 ^ 16 := Nat.mod_lt _ (by decide)
    apply BitVec.eq_of_toNat_eq
    rw [BitVec.toNat_setWidth, BitVec.toNat_ofNat, BitVec.toNat_ofNat, Nat.mod_eq_of_lt small]
  have run : (s.i2sOpen srcClk masterSlave sampleRate wordWidth monoData dataFormat).clkdiv =
      (0 : U32) &&& ~~~i2sClkdivBclkdivMsk |||
        (((((srcClk * 10 : U32) / (sampleRate * ((wordWidth >>> 4 &&& 0x3) + 1) * 16)) >>> 1 + 5) /
          10).setWidth 16 - 1).setWidth 32 <<< 8 := rfl
  rw [run, i2sDivider_eq, held, bitRate, tenfold]
  rfl

theorem i2sOpenClkdiv_run (bits : sampleRate.toNat * i2sFrame wordWidth < 2 ^ 32)
    (tenfold : srcClk.toNat * 10 < 2 ^ 32) (some : 0 < sampleRate.toNat)
    (value : q = (srcClk.toNat + sampleRate.toNat * i2sFrame wordWidth) /
      (2 * (sampleRate.toNat * i2sFrame wordWidth))) (least : 1 ≤ q) (most : q < 2 ^ 16) :
    i2sOpenClkdiv srcClk sampleRate wordWidth = pure
      ((0 : U32) &&& ~~~i2sClkdivBclkdivMsk ||| BitVec.ofNat 32 (q - 1) <<< 8,
        srcClk.toNat / (2 * q) / i2sFrame wordWidth) := by
  have positive := Nat.mul_pos some (i2sFrame_pos wordWidth)
  have product : sampleRate.toNat * ((wordWidth >>> 4 &&& 0x3).toNat + 1) * 16 =
      sampleRate.toNat * i2sFrame wordWidth := Nat.mul_assoc _ _ _
  have quotient := Nat.div_le_self (srcClk.toNat * 10) (sampleRate.toNat * i2sFrame wordWidth)
  have back : q - 1 + 1 = q := Nat.sub_add_cancel least
  unfold i2sOpenClkdiv
  dsimp only
  rw [fit_of_lt (by omega), pure_bind, product, fit_of_lt bits, pure_bind, fit_of_lt tenfold,
    pure_bind, quot_of_pos positive, pure_bind, fit_of_lt (by omega), pure_bind,
    rounded_divider positive, ← value, fit_of_lt most, pure_bind]
  rw [less_of_le least most, pure_bind, back, fit_of_lt (by omega), pure_bind,
    quot_of_pos (by omega), pure_bind]
  change (quot (srcClk.toNat / (2 * q)) (i2sFrame wordWidth) >>= _) = _
  rw [quot_of_pos (i2sFrame_pos wordWidth), pure_bind]

theorem i2sOpenClkdiv_lost (whole : (i2sOpenClkdiv srcClk sampleRate wordWidth).ok = true) :
    sampleRate.toNat * i2sFrame wordWidth < 2 ^ 32 ∧ srcClk.toNat * 10 < 2 ^ 32 ∧
      1 ≤ (srcClk.toNat + sampleRate.toNat * i2sFrame wordWidth) /
        (2 * (sampleRate.toNat * i2sFrame wordWidth)) ∧
      (srcClk.toNat + sampleRate.toNat * i2sFrame wordWidth) /
        (2 * (sampleRate.toNat * i2sFrame wordWidth)) < 2 ^ 16 := by
  have product : sampleRate.toNat * ((wordWidth >>> 4 &&& 0x3).toNat + 1) * 16 =
      sampleRate.toNat * i2sFrame wordWidth := Nat.mul_assoc _ _ _
  unfold i2sOpenClkdiv at whole
  dsimp only at whole
  rw [ok_fit_bind, ok_fit_bind, product, ok_fit_bind, ok_quot_bind, ok_fit_bind, ok_fit_bind] at whole
  obtain ⟨-, bits, tenfold, positive, -, small, rest⟩ := whole
  rw [rounded_divider positive] at small rest
  exact ⟨bits, tenfold, ((ok_less_bind small).mp rest).1, small⟩

theorem bclkdiv_field {d : Nat} (small : d < 2 ^ 16) :
    (((0 : U32) &&& ~~~i2sClkdivBclkdivMsk ||| BitVec.ofNat 32 d <<< 8) &&&
        ~~~i2sClkdivBclkdivMsk = 0 ↔ d ≤ 1023) ∧
      (d ≤ 1023 → ((((0 : U32) &&& ~~~i2sClkdivBclkdivMsk ||| BitVec.ofNat 32 d <<< 8) &&&
        i2sClkdivBclkdivMsk) >>> 8).toNat = d) := by
  have start : (0 : U32) &&& ~~~i2sClkdivBclkdivMsk ||| BitVec.ofNat 32 d <<< 8 =
      BitVec.ofNat 32 d <<< 8 := by
    rw [BitVec.ofNat_eq_ofNat, BitVec.zero_and, BitVec.zero_or]
  have value : (BitVec.ofNat 32 d <<< 8).toNat = d * 256 := by
    rw [BitVec.toNat_shiftLeft, BitVec.toNat_ofNat, Nat.shiftLeft_eq]
    omega
  have mask : i2sClkdivBclkdivMsk = BitVec.ofNat 32 (2 ^ 10 - 1) <<< 8 := rfl
  rw [start]
  have field : ((BitVec.ofNat 32 d <<< 8 &&& i2sClkdivBclkdivMsk) >>> 8).toNat = d % 1024 := by
    rw [mask, maskField_toNat _ (by decide), value]
    omega
  refine ⟨⟨fun alone => ?_, fun fits => ?_⟩, fun fits => by rw [field, Nat.mod_eq_of_lt (by omega)]⟩
  · have inside : BitVec.ofNat 32 d <<< 8 &&& i2sClkdivBclkdivMsk = BitVec.ofNat 32 d <<< 8 := by
      rwa [← clearMask_eq_iff, BitVec.not_not] at alone
    have bound := congrArg BitVec.toNat inside
    rw [BitVec.toNat_and, value] at bound
    have top : d * 256 &&& i2sClkdivBclkdivMsk.toNat ≤ i2sClkdivBclkdivMsk.toNat := Nat.and_le_right
    rw [bound, show i2sClkdivBclkdivMsk.toNat = 261888 from rfl] at top
    omega
  · have within := MaskedWrite.field_within (show d < 2 ^ 10 by omega) (show 8 + 10 ≤ 32 by decide)
    rwa [show fieldMask 32 10 8 = i2sClkdivBclkdivMsk from rfl] at within

theorem i2sOpen_iff (some : sampleRate ≠ 0) :
    I2sOpenLaw clk i2s sampleRate wordWidth ↔ I2sSourceKept clk i2s ∧
      I2sOpenKept (clk.own i2s).toNat (sampleRate.toNat * i2sFrame wordWidth) := by
  have positive : 0 < sampleRate.toNat := by
    by_contra none
    exact some (BitVec.eq_of_toNat_eq (by simpa using none))
  have fSome := i2sFrame_pos wordWidth
  have bSome := Nat.mul_pos positive fSome
  unfold I2sOpenLaw
  dsimp only
  rw [i2sSource_iff]
  refine and_congr_right fun source => ?_
  rw [i2sSource_iff.mpr source]
  generalize clk.own i2s = srcClk
  unfold I2sOpenKept
  dsimp only
  generalize value : (srcClk.toNat + sampleRate.toNat * i2sFrame wordWidth) /
    (2 * (sampleRate.toNat * i2sFrame wordWidth)) = q
  have least : 1 ≤ q ↔ sampleRate.toNat * i2sFrame wordWidth ≤ srcClk.toNat := by
    rw [← value, Nat.le_div_iff_mul_le (by omega)]
    omega
  by_cases whole : (i2sOpenClkdiv srcClk sampleRate wordWidth).ok = true
  · obtain ⟨bits, tenfold, one, small⟩ := i2sOpenClkdiv_lost whole
    rw [value] at one small
    have run := i2sOpenClkdiv_run bits tenfold positive value.symm one small
    rw [run]
    dsimp only [pure_def]
    obtain ⟨alone, field⟩ := bclkdiv_field (show q - 1 < 2 ^ 16 by omega)
    rw [alone]
    by_cases fits : q ≤ 1024
    · have back : q - 1 + 1 = q := Nat.sub_add_cancel one
      rw [field (by omega), i2sRate_nearest_iff fSome positive (least.mp one) value.symm fits,
        floor_i2sRate, back]
      constructor
      · rintro ⟨-, -, -, near⟩
        exact ⟨tenfold, bits, least.mp one, fits, near⟩
      · rintro ⟨-, -, -, -, near⟩
        exact ⟨rfl, by omega, rfl, near⟩
    · exact iff_of_false (fun law => fits (by omega)) fun kept => fits kept.2.2.2.1
  · refine iff_of_false (fun law => whole law.1) fun kept => whole ?_
    obtain ⟨tenfold, bits, fast, most, -⟩ := kept
    rw [i2sOpenClkdiv_run bits tenfold positive value.symm (least.mpr fast) (by omega)]
    rfl

end Open

section MasterClock

variable {clk : I2sClk} {i2s : I2sBase} {srcClk busClock clkdiv : U32} {src k m : Nat}

theorem i2sMclk_down (some : 0 < src) (i j : Nat) (less : i < j) : i2sMclk src j < i2sMclk src i := by
  have positive : (0 : ℚ) < src := by exact_mod_cast some
  have more : (i : ℚ) + 1 ≤ j := by exact_mod_cast less
  have iPositive : (0 : ℚ) ≤ i := Nat.cast_nonneg i
  unfold i2sMclk
  rw [if_neg (by omega)]
  split_ifs with zero
  · exact div_lt_self positive (by linarith)
  · have iSome : (0 : ℚ) < i := by exact_mod_cast Nat.pos_of_ne_zero zero
    exact div_lt_div_of_pos_left positive (by linarith) (by linarith)

theorem floor_i2sMclk (src k : Nat) :
    ⌊i2sMclk src k⌋₊ = if k = 0 then src else src / 2 / k := by
  unfold i2sMclk
  split_ifs
  · exact Nat.floor_natCast src
  · rw [show (src : ℚ) / (2 * k) = (src : ℚ) / ((2 * k : Nat) : ℚ) by push_cast; rfl,
      Nat.floor_div_eq_div, Nat.div_div_eq_div_mul]

theorem i2sMclk_first (src m : Nat) :
    (i2sMclk src 0 + i2sMclk src 1 ≤ 2 * m ↔ 3 * src ≤ 4 * m) ∧
      (2 * m ≤ i2sMclk src 0 + i2sMclk src 1 ↔ 4 * m ≤ 3 * src) := by
  unfold i2sMclk
  rw [if_pos rfl, if_neg (by decide), ← @Nat.cast_le ℚ, ← @Nat.cast_le ℚ]
  push_cast
  constructor
  · constructor <;> intro h <;> linarith
  · constructor <;> intro h <;> linarith

theorem i2sMclk_middle (some : 0 < k) :
    (i2sMclk src k + i2sMclk src (k + 1) ≤ 2 * m ↔ src * (2 * k + 1) ≤ 4 * m * (k * (k + 1))) ∧
      (2 * m ≤ i2sMclk src k + i2sMclk src (k + 1) ↔
        4 * m * (k * (k + 1)) ≤ src * (2 * k + 1)) := by
  have kPositive : (0 : ℚ) < k := by exact_mod_cast some
  have sum : i2sMclk src k + i2sMclk src (k + 1) = src * (2 * k + 1) / (2 * (k * (k + 1))) := by
    unfold i2sMclk
    rw [if_neg (by omega), if_neg (by omega)]
    push_cast
    field_simp
    ring
  have positive : (0 : ℚ) < 2 * (k * (k + 1)) := by positivity
  rw [sum, div_le_iff₀ positive, le_div_iff₀ positive, ← @Nat.cast_le ℚ,
    ← @Nat.cast_le ℚ]
  push_cast
  constructor
  · constructor <;> intro h <;> linarith
  · constructor <;> intro h <;> linarith

theorem i2sMclk_nearest_iff (some : 0 < m) (value : k = src / m / 2) (most : k ≤ 127) :
    (∀ j ≤ 127, |i2sMclk src k - m| ≤ |i2sMclk src j - m|) ↔
      (k = 0 → 3 * src ≤ 4 * m) ∧
        (1 ≤ k → k < 127 → src * (2 * k + 1) ≤ 4 * m * (k * (k + 1))) := by
  rcases Nat.eq_zero_or_pos src with none | sSome
  · have zero : k = 0 := by rw [value, none, Nat.zero_div, Nat.zero_div]
    have stopped (j : Nat) : i2sMclk src j = 0 := by
      unfold i2sMclk
      rw [none]
      split_ifs <;> simp
    refine iff_of_true (fun j _ => by rw [stopped, stopped]) ⟨fun _ => by omega, fun _ => by omega⟩
  · have low : 2 * k * m ≤ src := by
      rw [value, Nat.div_div_eq_div_mul, Nat.mul_comm m, Nat.mul_comm 2, Nat.mul_assoc]
      exact Nat.div_mul_le_self _ _
    rw [Nearest.iff_middles (i2sMclk_down sSome) most]
    cases k with
    | zero =>
      rw [(i2sMclk_first src m).1]
      simp
    | succ o =>
      have above : (2 * m : ℚ) ≤ i2sMclk src o + i2sMclk src (o + 1) := by
        rcases Nat.eq_zero_or_pos o with rfl | oSome
        · rw [(i2sMclk_first src m).2]
          omega
        · rw [(i2sMclk_middle oSome).2]
          calc 4 * m * (o * (o + 1)) ≤ 4 * m * (o * (o + 1)) + 2 * (o + 1) * m :=
                Nat.le_add_right _ _
            _ = 2 * (o + 1) * m * (2 * o + 1) := by ring
            _ ≤ src * (2 * o + 1) := Nat.mul_le_mul_right _ low
      rw [Nat.add_sub_cancel, and_iff_right (Or.inr above), (i2sMclk_middle (Nat.succ_pos o)).1]
      constructor
      · intro middle
        exact ⟨fun zero => absurd zero (Nat.succ_ne_zero o),
          fun _ less => middle.resolve_left (Nat.ne_of_lt less)⟩
      · rintro ⟨-, middle⟩
        exact (Nat.lt_or_eq_of_le most).elim (fun less => Or.inr (middle (Nat.succ_pos o) less)) Or.inl

theorem mclkdiv_field (clkdiv : U32) {d : Nat} (small : d ≤ 127) :
    ((clkdiv &&& ~~~i2sClkdivMclkdivMsk ||| BitVec.ofNat 32 d) &&& i2sClkdivMclkdivMsk).toNat = d ∧
      (clkdiv &&& ~~~i2sClkdivMclkdivMsk ||| BitVec.ofNat 32 d) &&& ~~~i2sClkdivMclkdivMsk =
        clkdiv &&& ~~~i2sClkdivMclkdivMsk := by
  have within := MaskedWrite.field_within (show d < 2 ^ 7 by omega) (show 0 + 7 ≤ 32 by decide)
  rw [show fieldMask 32 7 0 = i2sClkdivMclkdivMsk from rfl, BitVec.shiftLeft_zero] at within
  constructor
  · have own := within
    rw [← clearMask_eq_iff, BitVec.not_not] at own
    rw [BitVec.and_comm, BitVec.and_or_distrib_left, BitVec.and_comm _ (clkdiv &&& _),
      clearMask_self, BitVec.and_comm _ (BitVec.ofNat 32 d), own, BitVec.ofNat_eq_ofNat,
      BitVec.zero_or, BitVec.toNat_ofNat, Nat.mod_eq_of_lt (by omega)]
  · rw [orMask_and within, BitVec.and_assoc, BitVec.and_self]

theorem enableMclk_clkdiv (s : NuI2s) (srcClk busClock : U32) :
    (s.enableMclk srcClk busClock).clkdiv =
      (i2sEnableMclkClkdiv srcClk busClock s.clkdiv).val.1 := by
  change s.clkdiv &&& ~~~i2sClkdivMclkdivMsk ||| _ =
    s.clkdiv &&& ~~~i2sClkdivMclkdivMsk ||| BitVec.ofNat 32 (ite _ _ _ : Checked Nat).val
  congr 1
  split_ifs
  · rfl
  apply BitVec.eq_of_toNat_eq
  change _ = srcClk.toNat / busClock.toNat % 2 ^ 8 / 2 % 2 ^ 32
  rw [BitVec.toNat_setWidth, BitVec.toNat_ushiftRight, BitVec.toNat_setWidth, BitVec.toNat_udiv,
    Nat.shiftRight_eq_div_pow]

theorem i2sEnableMclkClkdiv_run (srcClk clkdiv : U32) (some : 0 < busClock.toNat) :
    ((i2sEnableMclkClkdiv srcClk busClock clkdiv).ok = true →
        srcClk.toNat / busClock.toNat < 256) ∧
      (srcClk.toNat / busClock.toNat < 256 → i2sEnableMclkClkdiv srcClk busClock clkdiv = pure
        (clkdiv &&& ~~~i2sClkdivMclkdivMsk |||
            BitVec.ofNat 32 (srcClk.toNat / busClock.toNat / 2),
          if srcClk.toNat / busClock.toNat / 2 = 0 then srcClk.toNat
          else srcClk.toNat / 2 / (srcClk.toNat / busClock.toNat / 2))) := by
  have divided : ((if busClock = srcClk then pure 0 else do
      let quotient ← quot srcClk.toNat busClock.toNat
      let cast ← fit 8 quotient
      pure (cast / 2)) : Checked Nat) = (do
        let cast ← fit 8 (srcClk.toNat / busClock.toNat)
        pure (cast / 2)) := by
    split_ifs with same
    · rw [same, Nat.div_self (same ▸ some)]
      rfl
    · rw [quot_of_pos some, pure_bind]
  unfold i2sEnableMclkClkdiv
  rw [divided, bind_assoc]
  constructor
  · intro whole
    exact (ok_fit_bind.mp whole).1
  · intro small
    rw [fit_of_lt small, pure_bind, pure_bind]
    dsimp only
    rw [(mclkdiv_field clkdiv (show srcClk.toNat / busClock.toNat / 2 ≤ 127 by omega)).1]
    split_ifs with zero
    · rw [pure_bind]
    · rw [quot_of_pos (Nat.pos_of_ne_zero zero), pure_bind]

theorem i2sMclk_iff (some : busClock ≠ 0) :
    I2sMclkLaw clk i2s busClock clkdiv ↔ I2sSourceKept clk i2s ∧
      I2sMclkKept (clk.own i2s).toNat busClock.toNat := by
  have positive : 0 < busClock.toNat := by
    by_contra none
    exact some (BitVec.eq_of_toNat_eq (by simpa using none))
  unfold I2sMclkLaw
  dsimp only
  rw [i2sSource_iff]
  refine and_congr_right fun source => ?_
  rw [i2sSource_iff.mpr source]
  generalize clk.own i2s = srcClk
  unfold I2sMclkKept
  dsimp only
  obtain ⟨least, run⟩ := i2sEnableMclkClkdiv_run srcClk clkdiv positive
  by_cases small : srcClk.toNat / busClock.toNat < 256
  · rw [run small]
    dsimp only [pure_def]
    obtain ⟨field, alone⟩ := mclkdiv_field clkdiv
      (show srcClk.toNat / busClock.toNat / 2 ≤ 127 by omega)
    rw [field, alone, floor_i2sMclk, i2sMclk_nearest_iff positive rfl (by omega)]
    exact ⟨fun law => ⟨small, law.2.2.2⟩, fun kept => ⟨rfl, rfl, rfl, kept.2⟩⟩
  · exact iff_of_false (fun law => small (least law.1)) fun kept => small kept.1

end MasterClock

section Clocks

/-- Both clocks are set as they should be exactly where the instance's source is used, and each
divider is the right one. -/
theorem i2s_clock_iff (clk : I2sClk) (i2s : I2sBase) (sampleRate wordWidth busClock clkdiv : U32)
    (rateSome : sampleRate ≠ 0) (clockSome : busClock ≠ 0) :
    I2sOpenLaw clk i2s sampleRate wordWidth ∧ I2sMclkLaw clk i2s busClock clkdiv ↔
      I2sSourceKept clk i2s ∧
        I2sOpenKept (clk.own i2s).toNat (sampleRate.toNat * i2sFrame wordWidth) ∧
        I2sMclkKept (clk.own i2s).toNat busClock.toNat := by
  rw [i2sOpen_iff rateSome, i2sMclk_iff clockSome]
  exact ⟨fun both => ⟨both.1.1, both.1.2, both.2.2⟩, fun kept => ⟨⟨kept.1, kept.2.1⟩, kept.1, kept.2.2⟩⟩

theorem i2s_clock_iff_audio :
    I2sOpenLaw ⟨0, 24576000, 180000000⟩ .i2s0 48000 (1 <<< 4) ∧
        I2sMclkLaw ⟨0, 24576000, 180000000⟩ .i2s0 12288000 0 ↔
      I2sSourceKept ⟨0, 24576000, 180000000⟩ .i2s0 ∧
        I2sOpenKept (I2sClk.own ⟨0, 24576000, 180000000⟩ .i2s0).toNat
          ((48000 : U32).toNat * i2sFrame (1 <<< 4)) ∧
        I2sMclkKept (I2sClk.own ⟨0, 24576000, 180000000⟩ .i2s0).toNat (12288000 : U32).toNat :=
  i2s_clock_iff _ _ _ _ _ _ (by decide) (by decide)

/-- I2S1 is set to SYSCLK1 / 2 and is clocked as if from the APLL. -/
theorem i2s1_wrong_source :
    i2sGetSourceClockFreq ⟨0x1 <<< 14, 24576000, 180000000⟩ .i2s1 = 24576000 ∧
      I2sClk.own ⟨0x1 <<< 14, 24576000, 180000000⟩ .i2s1 = 90000000 ∧
      ¬(I2sOpenLaw ⟨0x1 <<< 14, 24576000, 180000000⟩ .i2s1 48000 (1 <<< 4) ∧
        I2sMclkLaw ⟨0x1 <<< 14, 24576000, 180000000⟩ .i2s1 12000000 0) := by
  refine ⟨by decide, by decide, fun law => ?_⟩
  exact absurd law.1.1 (by decide)

end Clocks

end NuMakerMA35
