import NuMakerMA35.BitUtil
import NuMakerMA35.Checked
import NuMakerMA35.MaskedWrite

namespace NuMakerMA35

inductive SpiPort where
  | spi0
  | spi1
  | spi2
  | spi3
  deriving DecidableEq

structure SpiClocks where
  sysclk0 : U32
  apll : U32
  pclk1 : U32
  pclk2 : U32

structure SpiRegs where
  i2sctl : U32
  ssctl : U32
  ctl : U32
  clkdiv : U32
  clksel4 : U32

def spiMaster : U32 := 0
def spiSsActiveLow : U32 := 0
def spiI2sctlI2senMsk : U32 := 1
def spiCtlSpienMsk : U32 := 1
def spiCtlDwidthPos : Nat := 8
def spiClkdivDividerPos : Nat := 0
def spiClkdivDividerMsk : U32 := 0x1ff

namespace SpiPort

def selPos : SpiPort → Nat
  | spi0 => 0
  | spi1 => 2
  | spi2 => 4
  | spi3 => 6

def selMsk (spi : SpiPort) : U32 := 0x3 <<< spi.selPos
def selPclk (spi : SpiPort) : U32 := 0x0 <<< spi.selPos
def selApll (spi : SpiPort) : U32 := 0x1 <<< spi.selPos

def pclk (clocks : SpiClocks) : SpiPort → U32
  | spi0 | spi2 => clocks.pclk1
  | spi1 | spi3 => clocks.pclk2

/-- The clock source of the port; a selection that is not known has none. -/
def clkSrc (spi : SpiPort) (clocks : SpiClocks) (clksel4 : U32) : Nat :=
  if clksel4 &&& spi.selMsk = spi.selApll then clocks.apll.toNat
  else if clksel4 &&& spi.selMsk = spi.selPclk then (spi.pclk clocks).toNat
  else 0

def selectPclk (spi : SpiPort) (clksel4 : U32) : U32 := maskedWrite spi.selMsk spi.selPclk clksel4

end SpiPort

def spiDivider (src bus : Nat) : Checked Nat := do
  let tenfold ← Checked.fit 32 (src * 10)
  let quotient ← Checked.quot tenfold bus
  let half ← Checked.fit 32 (quotient + 5)
  Checked.less 32 (half / 10) 1

/-- The divider that is written and the clock that is returned; the two functions do it with limits
of their own. -/
def spiBusDivider (limit : Nat) (clkdiv : U32) (hclk src bus : Nat) : Checked (U32 × Nat) :=
  if hclk ≤ bus then pure (0, src)
  else if src ≤ bus then pure (0, src)
  else if bus = 0 then pure (clkdiv ||| spiClkdivDividerMsk, src / (0xff + 1))
  else do
    let div ← spiDivider src bus
    if div > limit then pure (clkdiv ||| spiClkdivDividerMsk, src / (0xff + 1))
    else
      let next ← Checked.fit 32 (div + 1)
      pure (maskedWrite spiClkdivDividerMsk (BitVec.ofNat 32 div <<< spiClkdivDividerPos) clkdiv,
        src / next)

def spiOpen (clocks : SpiClocks) (spi : SpiPort) (masterSlave mode dataWidth bus : U32)
    (s : SpiRegs) : Checked (SpiRegs × Nat) :=
  let dataWidth := if dataWidth = 32 then 0 else dataWidth
  let ctl := masterSlave ||| dataWidth <<< spiCtlDwidthPos ||| mode ||| spiCtlSpienMsk
  let s := { s with
    i2sctl := s.i2sctl &&& ~~~spiI2sctlI2senMsk, ssctl := spiSsActiveLow, ctl := ctl }
  if masterSlave = spiMaster then do
    let clksel4 := if clocks.sysclk0.toNat ≤ bus.toNat then spi.selectPclk s.clksel4 else s.clksel4
    let (clkdiv, ret) ← spiBusDivider 0xff s.clkdiv clocks.sysclk0.toNat (spi.clkSrc clocks clksel4)
      bus.toNat
    pure ({ s with clkdiv := clkdiv, clksel4 := clksel4 }, ret)
  else
    pure ({ s with clkdiv := 0, clksel4 := spi.selectPclk s.clksel4 }, (spi.pclk clocks).toNat)

def spiSetBusClock (clocks : SpiClocks) (spi : SpiPort) (bus : U32) (s : SpiRegs) :
    Checked (SpiRegs × Nat) := do
  let clksel4 := if clocks.sysclk0.toNat ≤ bus.toNat then spi.selectPclk s.clksel4 else s.clksel4
  let (clkdiv, ret) ← spiBusDivider 0x1ff s.clkdiv clocks.sysclk0.toNat (spi.clkSrc clocks clksel4)
    bus.toNat
  pure ({ s with clkdiv := clkdiv, clksel4 := clksel4 }, ret)

def spiGetBusClock (clocks : SpiClocks) (spi : SpiPort) (s : SpiRegs) : Nat :=
  let div := ((s.clkdiv &&& spiClkdivDividerMsk) >>> spiClkdivDividerPos).toNat
  spi.clkSrc clocks s.clksel4 / (div + 1)

/-- A setting of the bus clock loses nothing, changes no bit beside the divider unless it clears the
register, and returns what is read back. -/
def SpiClockSound (clocks : SpiClocks) (spi : SpiPort) (s : SpiRegs) (set : Checked (SpiRegs × Nat)) :
    Prop :=
  set.ok = true ∧ set.val.2 = spiGetBusClock clocks spi set.val.1 ∧
    (set.val.1.clkdiv = 0 ∨
      set.val.1.clkdiv &&& ~~~spiClkdivDividerMsk = s.clkdiv &&& ~~~spiClkdivDividerMsk)

/-- Both functions are sound and leave the same divider and source. -/
def SpiClockLaw (clocks : SpiClocks) (spi : SpiPort) (mode dataWidth bus : U32) (s : SpiRegs) : Prop :=
  let opened := spiOpen clocks spi spiMaster mode dataWidth bus s
  let set := spiSetBusClock clocks spi bus s
  SpiClockSound clocks spi s opened ∧ SpiClockSound clocks spi s set ∧
    opened.val.1.clkdiv = set.val.1.clkdiv ∧ opened.val.1.clksel4 = set.val.1.clksel4

/-- The request is not below the system clock or the source, it is zero with a source below 256 Hz,
or ten times the source has 32 bits and the divider 8. -/
def SpiClockKept (hclk src bus : Nat) : Prop :=
  hclk ≤ bus ∨ src ≤ bus ∨ (bus = 0 ∧ src < 256) ∨
    (0 < bus ∧ src * 10 < 2 ^ 32 ∧ 2 * src < 513 * bus)

open Checked

section Divider

variable {hclk src bus : Nat} {clkdiv : U32}

theorem spiDivider_eq (positive : 0 < bus) (below : bus < src) (small : src * 10 < 2 ^ 32) :
    spiDivider src bus = pure ((src * 10 / bus + 5) / 10 - 1) := by
  have tenfold : src * 10 / bus ≤ src * 10 := Nat.div_le_self _ _
  have enough : 10 ≤ src * 10 / bus := by
    rw [Nat.le_div_iff_mul_le positive]
    omega
  rw [spiDivider, fit_of_lt small, pure_bind, quot_of_pos positive, pure_bind,
    fit_of_lt (by omega), pure_bind, less_of_le (by omega) (by omega)]

theorem spiDivider_lost (large : 2 ^ 32 ≤ src * 10) : (spiDivider src bus).ok = false :=
  fit_lost large

theorem spiDivider_small (positive : 0 < bus) :
    (src * 10 / bus + 5) / 10 - 1 ≤ 0xff ↔ 2 * src < 513 * bus := by
  have ten : src * 10 / bus < 2565 ↔ src * 10 < 2565 * bus := Nat.div_lt_iff_lt_mul positive
  omega

theorem spiDivider_field {n : Nat} (small : n < 2 ^ 9) :
    BitVec.ofNat 32 n <<< spiClkdivDividerPos &&& ~~~spiClkdivDividerMsk = 0 := by
  have field := @MaskedWrite.field_within 32 9 0 n small (by decide)
  exact field

theorem spiDivider_read {n : Nat} (small : n < 2 ^ 9) :
    maskedWrite spiClkdivDividerMsk (BitVec.ofNat 32 n <<< spiClkdivDividerPos) clkdiv &&&
      spiClkdivDividerMsk = BitVec.ofNat 32 n <<< spiClkdivDividerPos :=
  MaskedWrite.read_back (spiDivider_field small)

theorem spiDivider_full : (clkdiv ||| spiClkdivDividerMsk) &&& spiClkdivDividerMsk =
    spiClkdivDividerMsk := by
  apply BitVec.eq_of_getLsbD_eq
  intro i inside
  rw [BitVec.getLsbD_and, BitVec.getLsbD_or]
  cases spiClkdivDividerMsk.getLsbD i with
  | true => rw [Bool.or_true, Bool.and_true]
  | false => rw [Bool.and_false]

theorem spiDivider_beside : (clkdiv ||| spiClkdivDividerMsk) &&& ~~~spiClkdivDividerMsk =
    clkdiv &&& ~~~spiClkdivDividerMsk := by
  rw [BitVec.and_or_distrib_right, BitVec.and_not_self]
  exact BitVec.or_zero

def spiRead (src : Nat) (clkdiv : U32) : Nat :=
  src / (((clkdiv &&& spiClkdivDividerMsk) >>> spiClkdivDividerPos).toNat + 1)

theorem spiRead_full : spiRead src (clkdiv ||| spiClkdivDividerMsk) = src / 512 := by
  rw [spiRead, spiDivider_full]
  rfl

theorem spiRead_div {n : Nat} (small : n < 2 ^ 9) :
    spiRead src (maskedWrite spiClkdivDividerMsk (BitVec.ofNat 32 n <<< spiClkdivDividerPos) clkdiv) =
      src / (n + 1) := by
  have wide : n < 2 ^ 32 := small.trans (by decide)
  rw [spiRead, spiDivider_read small, spiClkdivDividerPos, BitVec.shiftLeft_zero,
    BitVec.ushiftRight_zero, BitVec.toNat_ofNat, Nat.mod_eq_of_lt wide]

theorem spiBusDivider_kept (clkdiv : U32) (kept : SpiClockKept hclk src bus) :
    ∃ w : U32, (w = 0 ∨ w &&& ~~~spiClkdivDividerMsk = clkdiv &&& ~~~spiClkdivDividerMsk) ∧
      ∀ limit, 0xff ≤ limit → spiBusDivider limit clkdiv hclk src bus = pure (w, spiRead src w) := by
  have cleared : spiRead src 0 = src := by
    rw [spiRead, show ((0 &&& spiClkdivDividerMsk) >>> spiClkdivDividerPos).toNat = 0 from rfl,
      Nat.zero_add, Nat.div_one]
  by_cases fast : hclk ≤ bus
  · refine ⟨0, .inl rfl, fun limit _ => ?_⟩
    rw [spiBusDivider, if_pos fast, cleared]
  by_cases above : src ≤ bus
  · refine ⟨0, .inl rfl, fun limit _ => ?_⟩
    rw [spiBusDivider, if_neg fast, if_pos above, cleared]
  rcases (kept.resolve_left fast).resolve_left above with ⟨zero, slow⟩ | ⟨positive, small, near⟩
  · refine ⟨clkdiv ||| spiClkdivDividerMsk, .inr spiDivider_beside, fun limit _ => ?_⟩
    have none : src / (0xff + 1) = src / 512 := by omega
    rw [spiBusDivider, if_neg fast, if_neg above, if_pos zero, spiRead_full, none]
  · have least : (src * 10 / bus + 5) / 10 - 1 ≤ 0xff := (spiDivider_small positive).2 near
    refine ⟨maskedWrite spiClkdivDividerMsk
      (BitVec.ofNat 32 ((src * 10 / bus + 5) / 10 - 1) <<< spiClkdivDividerPos) clkdiv,
      .inr ?_, fun limit le => ?_⟩
    · have inside : spiClkdivDividerMsk &&& ~~~spiClkdivDividerMsk = 0 := by decide
      exact MaskedWrite.and_outside (spiDivider_field (by omega)) inside
    · rw [spiBusDivider, if_neg fast, if_neg above, if_neg positive.ne',
        spiDivider_eq positive (by omega) small, pure_bind, if_neg (by omega),
        fit_of_lt (by omega), pure_bind, spiRead_div (by omega)]

theorem spiBusDivider_lost (lost : ¬SpiClockKept hclk src bus)
    (whole : (spiBusDivider 0xff clkdiv hclk src bus).ok = true) :
    (spiBusDivider 0xff clkdiv hclk src bus).val.2 ≠
      spiRead src (spiBusDivider 0xff clkdiv hclk src bus).val.1 := by
  simp only [SpiClockKept, not_or] at lost
  obtain ⟨fast, above, slow, near⟩ := lost
  have differ : 256 ≤ src → src / (0xff + 1) ≠ src / 512 := by omega
  by_cases zero : bus = 0
  · rw [spiBusDivider, if_neg fast, if_neg above, if_pos zero, pure_def, spiRead_full]
    exact differ (by omega)
  have positive : 0 < bus := Nat.pos_of_ne_zero zero
  rw [spiBusDivider, if_neg fast, if_neg above, if_neg zero] at whole ⊢
  by_cases small : src * 10 < 2 ^ 32
  · have far : ¬2 * src < 513 * bus := fun close => near ⟨positive, small, close⟩
    have large : (src * 10 / bus + 5) / 10 - 1 > 0xff := by
      have most := (spiDivider_small positive).not.2 far
      omega
    rw [spiDivider_eq positive (by omega) small, pure_bind, if_pos large, pure_def, spiRead_full]
    exact differ (by omega)
  · have overflow : (spiDivider src bus).ok = false := spiDivider_lost (by omega)
    have kept : (spiDivider src bus).ok = true := ((Bool.and_eq_true _ _).mp whole).1
    exact Bool.noConfusion (kept.symm.trans overflow)

end Divider

section Ports

variable {clocks : SpiClocks} {spi : SpiPort} {mode dataWidth bus : U32} {s : SpiRegs}

/-- `CLKSEL4` once the bus clock is selected for a request that is not below the system clock. -/
def spiSelected (clocks : SpiClocks) (spi : SpiPort) (bus clksel4 : U32) : U32 :=
  if clocks.sysclk0.toNat ≤ bus.toNat then spi.selectPclk clksel4 else clksel4

theorem spiClockKept_selected :
    SpiClockKept clocks.sysclk0.toNat (spi.clkSrc clocks (spiSelected clocks spi bus s.clksel4))
      bus.toNat ↔
      SpiClockKept clocks.sysclk0.toNat (spi.clkSrc clocks s.clksel4) bus.toNat := by
  rw [spiSelected]
  split
  · exact iff_of_true (.inl ‹_›) (.inl ‹_›)
  · exact Iff.rfl

theorem spiOpen_master :
    spiOpen clocks spi spiMaster mode dataWidth bus s =
      (spiBusDivider 0xff s.clkdiv clocks.sysclk0.toNat
        (spi.clkSrc clocks (spiSelected clocks spi bus s.clksel4)) bus.toNat >>= fun set =>
          pure ({
            i2sctl := s.i2sctl &&& ~~~spiI2sctlI2senMsk
            ssctl := spiSsActiveLow
            ctl := spiMaster ||| (if dataWidth = 32 then 0 else dataWidth) <<< spiCtlDwidthPos |||
              mode ||| spiCtlSpienMsk
            clkdiv := set.1
            clksel4 := spiSelected clocks spi bus s.clksel4 }, set.2)) := by
  rw [spiOpen]
  exact if_pos rfl

theorem spiSetBusClock_eq :
    spiSetBusClock clocks spi bus s =
      (spiBusDivider 0x1ff s.clkdiv clocks.sysclk0.toNat
        (spi.clkSrc clocks (spiSelected clocks spi bus s.clksel4)) bus.toNat >>= fun set =>
          pure ({ s with
            clkdiv := set.1
            clksel4 := spiSelected clocks spi bus s.clksel4 }, set.2)) := rfl

end Ports

/-- For every port, every selection of its source, all clock frequencies and every request,
`SPI_Open` and `SPI_SetBusClock` agree with each other and with what is read back just when the
request is not below the system clock or the source, or the divider they need has 8 bits and ten
times the source 32. -/
theorem spi_clock_iff (clocks : SpiClocks) (spi : SpiPort) (mode dataWidth bus : U32) (s : SpiRegs) :
    SpiClockLaw clocks spi mode dataWidth bus s ↔
      SpiClockKept clocks.sysclk0.toNat (spi.clkSrc clocks s.clksel4) bus.toNat := by
  rw [← spiClockKept_selected, SpiClockLaw, spiOpen_master, spiSetBusClock_eq]
  constructor
  · rintro ⟨⟨whole, same, -⟩, -⟩
    by_contra lost
    rw [bind_def] at whole same
    exact spiBusDivider_lost lost ((Bool.and_eq_true _ _).mp whole).1 same
  · intro kept
    obtain ⟨w, outside, written⟩ := spiBusDivider_kept s.clkdiv kept
    rw [written 0xff le_rfl, written 0x1ff (by decide)]
    exact ⟨⟨rfl, rfl, outside⟩, ⟨rfl, rfl, outside⟩, rfl, rfl⟩

/-- The bus clock is 180 MHz and no request is made. -/
theorem unrequested_disagrees :
    ¬SpiClockLaw ⟨180000000, 0, 180000000, 180000000⟩ .spi0 0 8 0 ⟨0, 0, 0, 0, 0⟩ := by
  rintro ⟨⟨-, same, -⟩, -⟩
  exact absurd same (by decide)

end NuMakerMA35
