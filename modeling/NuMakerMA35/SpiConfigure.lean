import NuMakerMA35.PdmaChannel
import NuMakerMA35.SpiClock

namespace NuMakerMA35

@[ext]
structure SpiConfiguration where
  mode : BitVec 8
  dataWidth : BitVec 8
  reserved : BitVec 16
  maxHz : U32
  deriving DecidableEq

/-- A device of the bus: the pin that its user data names, or none for the bus's own chip select. -/
structure SpiDevice where
  csPin : Option Nat
  deriving DecidableEq

/-- A bus: the registers of its controller, the words in its receive FIFO, the level of every pin, and
the last configuration. -/
@[ext]
structure SpiBus where
  regs : SpiRegs
  rxFifo : Nat
  pins : Nat → Bool
  configuration : SpiConfiguration

def rtSpiMode3 : BitVec 8 := 3
def rtSpiMsb : BitVec 8 := 1 <<< 2
def rtSpiSlave : BitVec 8 := 1 <<< 3
def rtSpiCsHigh : BitVec 8 := 1 <<< 4
def spiCtlRxnegMsk : U32 := 1 <<< 1
def spiCtlTxnegMsk : U32 := 1 <<< 2
def spiCtlClkpolMsk : U32 := 1 <<< 3
def spiCtlLsbMsk : U32 := 1 <<< 13
def spiSlave : U32 := 1 <<< 18
def spiSsctlSsMsk : U32 := 1
def spiSsctlSsactpolMsk : U32 := 1 <<< 2
def spiSsctlAutossMsk : U32 := 1 <<< 3

def spiModeOf (mode : BitVec 8) : Option U32 :=
  if mode &&& rtSpiMode3 = 0 then some spiCtlTxnegMsk
  else if mode &&& rtSpiMode3 = 1 then some spiCtlRxnegMsk
  else if mode &&& rtSpiMode3 = 2 then some (spiCtlClkpolMsk ||| spiCtlRxnegMsk)
  else if mode &&& rtSpiMode3 = 3 then some (spiCtlClkpolMsk ||| spiCtlTxnegMsk)
  else none

def spiDisableAutoSS (regs : SpiRegs) : SpiRegs :=
  { regs with ssctl := regs.ssctl &&& ~~~(spiSsctlAutossMsk ||| spiSsctlSsMsk) }

def spiSetSs (level : Bool) (regs : SpiRegs) : SpiRegs :=
  if level then
    { regs with
      ssctl := regs.ssctl &&& ~~~spiSsctlAutossMsk ||| (spiSsctlSsactpolMsk ||| spiSsctlSsMsk) }
  else
    { regs with
      ssctl := regs.ssctl &&& ~~~(spiSsctlAutossMsk ||| spiSsctlSsactpolMsk) ||| spiSsctlSsMsk }

def spiSetMsb (msb : Bool) (regs : SpiRegs) : SpiRegs :=
  { regs with ctl := if msb then regs.ctl &&& ~~~spiCtlLsbMsk else regs.ctl ||| spiCtlLsbMsk }

namespace SpiConfiguration

variable (c : SpiConfiguration)

def idleLevel : Bool := c.mode &&& rtSpiCsHigh = 0

def msbFirst : Bool := c.mode &&& rtSpiMsb ≠ 0

def masterSlave : U32 := if c.mode &&& rtSpiSlave ≠ 0 then spiSlave else spiMaster

def WidthOk : Prop :=
  c.dataWidth = 8 ∨ c.dataWidth = 16 ∨ c.dataWidth = 24 ∨ c.dataWidth = 32

instance : Decidable c.WidthOk := inferInstanceAs (Decidable (_ ∨ _))

end SpiConfiguration

namespace SpiBus

variable (clocks : SpiClocks) (spi : SpiPort)

/-- The set-up that `nu_spi_bus_configure` makes for a new configuration. -/
def setUp (device : SpiDevice) (c : SpiConfiguration) (mode : U32) (s : SpiBus) : SpiBus :=
  let opened := (spiOpen clocks spi c.masterSlave mode (c.dataWidth.setWidth 32) c.maxHz s.regs).val.1
  let regs := spiDisableAutoSS opened
  let s := { s with configuration := c }
  match device.csPin with
  | some pin =>
    { s with
      regs := spiSetMsb c.msbFirst regs
      pins := Function.update s.pins pin c.idleLevel }
  | none => { s with regs := spiSetMsb c.msbFirst (spiSetSs c.idleLevel regs) }

def drainRxfifo (s : SpiBus) : SpiBus := { s with rxFifo := 0 }

/-- `nu_spi_bus_configure`, with the check for a new configuration as a parameter. -/
def configureIf (new : SpiConfiguration → SpiBus → Bool) (device : SpiDevice) (c : SpiConfiguration)
    (s : SpiBus) : Int × SpiBus :=
  match spiModeOf c.mode with
  | none => (-rtEio, s)
  | some mode =>
    if ¬c.WidthOk then (-rtEinval, s)
    else (0, (if new c s then s.setUp clocks spi device c mode else s).drainRxfifo)

def nuSpiBusConfigure (device : SpiDevice) (c : SpiConfiguration) (s : SpiBus) : Int × SpiBus :=
  s.configureIf clocks spi (fun c s => c ≠ s.configuration) device c

def fullConfigure (device : SpiDevice) (c : SpiConfiguration) (s : SpiBus) : Int × SpiBus :=
  s.configureIf clocks spi (fun _ _ => true) device c

/-- The level of a device's chip select. With the automatic selection off, the bus's own is at its
active level just where `SS` is set. -/
def csLevel (device : SpiDevice) (s : SpiBus) : Bool :=
  match device.csPin with
  | some pin => s.pins pin
  | none => (s.regs.ssctl &&& spiSsctlSsMsk ≠ 0) == (s.regs.ssctl &&& spiSsctlSsactpolMsk ≠ 0)

end SpiBus

structure SpiCall where
  device : SpiDevice
  cfg : SpiConfiguration

namespace SpiCall

variable (clocks : SpiClocks) (spi : SpiPort)

def step (s : SpiBus) (call : SpiCall) : SpiBus :=
  (s.nuSpiBusConfigure clocks spi call.device call.cfg).2

/-- After success the controller and the device's chip select are as the full sequence leaves them;
an error changes nothing. -/
def Right (s : SpiBus) (call : SpiCall) : Prop :=
  let full := s.fullConfigure clocks spi call.device call.cfg
  let result := s.nuSpiBusConfigure clocks spi call.device call.cfg
  if result.1 = 0 then
    result.2.regs = full.2.regs ∧ result.2.rxFifo = full.2.rxFifo ∧
      result.2.csLevel call.device = full.2.csLevel call.device
  else result.2 = s

/-- The calls that set the hardware up: those with a width that is accepted and a configuration that
is not that of the last of them. -/
def setUps (log : List SpiCall) (call : SpiCall) : List SpiCall :=
  if call.cfg.WidthOk ∧ log.getLast?.map SpiCall.cfg ≠ some call.cfg then log ++ [call] else log

def lastLevel (pins : Nat → Bool) (log : List SpiCall) (pin : Nat) : Bool :=
  match (log.filter (·.device.csPin = some pin)).getLast? with
  | some call => call.cfg.idleLevel
  | none => pins pin

/-- A call that repeats the configuration of the last set-up: that was for a device of the same kind
of chip select, and the device's own pin is at the idle level since its own last set-up. -/
def Covered (pins : Nat → Bool) (log : List SpiCall) (call : SpiCall) : Prop :=
  call.cfg.WidthOk → ∀ last ∈ log.getLast?, last.cfg = call.cfg →
    last.device.csPin.isSome = call.device.csPin.isSome ∧
      ∀ pin ∈ call.device.csPin, lastLevel pins log pin = call.cfg.idleLevel

end SpiCall

section Registers

variable (clocks : SpiClocks) (spi : SpiPort)

/-- The registers that a set-up leaves, for a device with a pin of its own or without. -/
def spiSetUpRegs (own : Bool) (c : SpiConfiguration) (mode : U32) (regs : SpiRegs) : SpiRegs :=
  let opened := (spiOpen clocks spi c.masterSlave mode (c.dataWidth.setWidth 32) c.maxHz regs).val.1
  let regs := spiDisableAutoSS opened
  spiSetMsb c.msbFirst (if own then regs else spiSetSs c.idleLevel regs)

def spiSetUpSsctl (own : Bool) (c : SpiConfiguration) : U32 :=
  if own then 0 else if c.idleLevel then 5 else 1

variable {clocks spi} {s : SpiBus} {c : SpiConfiguration} {mode : U32}

theorem setUp_regs (device : SpiDevice) : (s.setUp clocks spi device c mode).regs =
    spiSetUpRegs clocks spi device.csPin.isSome c mode s.regs := by
  unfold SpiBus.setUp spiSetUpRegs
  cases device.csPin <;> rfl

theorem spiSelected_again (bus clksel4 : U32) :
    spiSelected clocks spi bus (spiSelected clocks spi bus clksel4) =
      spiSelected clocks spi bus clksel4 := by
  unfold spiSelected
  split_ifs
  · exact MaskedWrite.again
  · rfl

theorem spiBusDivider_write (limit hclk src bus : Nat) :
    (∀ clkdiv, (spiBusDivider limit clkdiv hclk src bus).val.1 = 0) ∨
      ∃ value, ∀ clkdiv, (spiBusDivider limit clkdiv hclk src bus).val.1 =
        maskedWrite spiClkdivDividerMsk value clkdiv := by
  have full (clkdiv : U32) : clkdiv ||| spiClkdivDividerMsk =
      maskedWrite spiClkdivDividerMsk spiClkdivDividerMsk clkdiv := MaskedWrite.set_all.symm
  unfold spiBusDivider
  by_cases fast : hclk ≤ bus
  · exact .inl fun clkdiv => by rw [if_pos fast]; rfl
  by_cases above : src ≤ bus
  · exact .inl fun clkdiv => by rw [if_neg fast, if_pos above]; rfl
  refine .inr ?_
  by_cases zero : bus = 0
  · refine ⟨spiClkdivDividerMsk, fun clkdiv => ?_⟩
    rw [if_neg fast, if_neg above, if_pos zero, ← full]
    rfl
  generalize spiDivider src bus = divider
  obtain ⟨div, ok⟩ := divider
  by_cases large : div > limit
  · refine ⟨spiClkdivDividerMsk, fun clkdiv => ?_⟩
    rw [if_neg fast, if_neg above, if_neg zero, ← full, Checked.bind_def]
    dsimp only
    rw [if_pos large]
    rfl
  · refine ⟨BitVec.ofNat 32 div <<< spiClkdivDividerPos, fun clkdiv => ?_⟩
    rw [if_neg fast, if_neg above, if_neg zero, Checked.bind_def]
    dsimp only
    rw [if_neg large]
    rfl

theorem spiBusDivider_again (limit : Nat) (clkdiv : U32) (hclk src bus : Nat) :
    (spiBusDivider limit (spiBusDivider limit clkdiv hclk src bus).val.1 hclk src bus).val.1 =
      (spiBusDivider limit clkdiv hclk src bus).val.1 := by
  rcases spiBusDivider_write limit hclk src bus with zero | ⟨value, write⟩
  · rw [zero, zero]
  · rw [write, write]
    exact MaskedWrite.again

/-- The clock registers that `SPI_Open` leaves. -/
def spiOpenClkdiv (clocks : SpiClocks) (spi : SpiPort) (masterSlave bus : U32) (regs : SpiRegs) : U32 :=
  if masterSlave = spiMaster then
    (spiBusDivider 0xff regs.clkdiv clocks.sysclk0.toNat
      (spi.clkSrc clocks (spiSelected clocks spi bus regs.clksel4)) bus.toNat).val.1
  else 0

def spiOpenClksel4 (clocks : SpiClocks) (spi : SpiPort) (masterSlave bus : U32) (clksel4 : U32) : U32 :=
  if masterSlave = spiMaster then spiSelected clocks spi bus clksel4 else spi.selectPclk clksel4

theorem spiOpen_val (masterSlave dataWidth bus : U32) (regs : SpiRegs) :
    (spiOpen clocks spi masterSlave mode dataWidth bus regs).val.1 = {
      i2sctl := regs.i2sctl &&& ~~~spiI2sctlI2senMsk
      ssctl := spiSsActiveLow
      ctl := masterSlave ||| (if dataWidth = 32 then 0 else dataWidth) <<< spiCtlDwidthPos |||
        mode ||| spiCtlSpienMsk
      clkdiv := spiOpenClkdiv clocks spi masterSlave bus regs
      clksel4 := spiOpenClksel4 clocks spi masterSlave bus regs.clksel4 } := by
  unfold spiOpenClkdiv spiOpenClksel4
  by_cases master : masterSlave = spiMaster
  · rw [if_pos master, if_pos master, master, spiOpen_master, Checked.bind_def]
    rfl
  · rw [if_neg master, if_neg master, spiOpen]
    dsimp only
    rw [if_neg master]
    rfl

theorem spiOpenClksel4_again (masterSlave bus clksel4 : U32) :
    spiOpenClksel4 clocks spi masterSlave bus (spiOpenClksel4 clocks spi masterSlave bus clksel4) =
      spiOpenClksel4 clocks spi masterSlave bus clksel4 := by
  unfold spiOpenClksel4
  split_ifs
  · exact spiSelected_again bus clksel4
  · exact MaskedWrite.again

theorem spiSetUpRegs_eq (own : Bool) (regs : SpiRegs) : spiSetUpRegs clocks spi own c mode regs = {
      i2sctl := regs.i2sctl &&& ~~~spiI2sctlI2senMsk
      ssctl := spiSetUpSsctl own c
      ctl := (spiSetMsb c.msbFirst (spiOpen clocks spi c.masterSlave mode
        (c.dataWidth.setWidth 32) c.maxHz ⟨0, 0, 0, 0, 0⟩).val.1).ctl
      clkdiv := spiOpenClkdiv clocks spi c.masterSlave c.maxHz regs
      clksel4 := spiOpenClksel4 clocks spi c.masterSlave c.maxHz regs.clksel4 } := by
  have off : spiSsActiveLow &&& ~~~(spiSsctlAutossMsk ||| spiSsctlSsMsk) = 0 := by decide
  have high : (0 : U32) &&& ~~~spiSsctlAutossMsk ||| (spiSsctlSsactpolMsk ||| spiSsctlSsMsk) = 5 := by
    decide
  have low : (0 : U32) &&& ~~~(spiSsctlAutossMsk ||| spiSsctlSsactpolMsk) ||| spiSsctlSsMsk = 1 := by
    decide
  unfold spiSetUpRegs
  rw [spiOpen_val, spiOpen_val]
  cases own with
  | true => simp only [spiDisableAutoSS, spiSetMsb, spiSetUpSsctl, off, if_true]
  | false =>
    cases idle : c.idleLevel with
    | true =>
      simp only [spiDisableAutoSS, spiSetMsb, spiSetSs, spiSetUpSsctl, off, high, idle, if_true,
        Bool.false_eq_true, if_false]
    | false =>
      simp only [spiDisableAutoSS, spiSetMsb, spiSetSs, spiSetUpSsctl, off, low, idle,
        Bool.false_eq_true, if_false]

theorem spiSetUpRegs_again (own own' : Bool) (regs : SpiRegs) :
    spiSetUpRegs clocks spi own c mode (spiSetUpRegs clocks spi own' c mode regs) =
      spiSetUpRegs clocks spi own c mode regs := by
  have clksel4 : spiOpenClksel4 clocks spi c.masterSlave c.maxHz
      (spiOpenClksel4 clocks spi c.masterSlave c.maxHz regs.clksel4) =
      spiOpenClksel4 clocks spi c.masterSlave c.maxHz regs.clksel4 :=
    spiOpenClksel4_again c.masterSlave c.maxHz regs.clksel4
  have clkdiv : spiOpenClkdiv clocks spi c.masterSlave c.maxHz
      (spiSetUpRegs clocks spi own' c mode regs) =
      spiOpenClkdiv clocks spi c.masterSlave c.maxHz regs := by
    rw [spiSetUpRegs_eq]
    unfold spiOpenClkdiv spiOpenClksel4
    split_ifs
    · rw [spiSelected_again]
      exact spiBusDivider_again _ _ _ _ _
    · rfl
  rw [spiSetUpRegs_eq own, spiSetUpRegs_eq own, clkdiv]
  rw [spiSetUpRegs_eq own', clksel4, BitVec.and_assoc, BitVec.and_self]

theorem spiSetUpSsctl_inj {own own' : Bool} :
    spiSetUpSsctl own c = spiSetUpSsctl own' c ↔ own = own' := by
  unfold spiSetUpSsctl
  cases own <;> cases own' <;> cases c.idleLevel <;> decide

theorem spiSetUpRegs_same_iff (own own' : Bool) (regs : SpiRegs) :
    spiSetUpRegs clocks spi own c mode (spiSetUpRegs clocks spi own' c mode regs) =
      spiSetUpRegs clocks spi own' c mode regs ↔ own = own' := by
  rw [spiSetUpRegs_again]
  constructor
  · intro same
    rw [spiSetUpRegs_eq own, spiSetUpRegs_eq own'] at same
    exact spiSetUpSsctl_inj.mp (congrArg SpiRegs.ssctl same)
  · rintro rfl
    rfl

end Registers

theorem spiModeOf_some (mode : BitVec 8) : ∃ m, spiModeOf mode = some m := by
  rw [← Option.isSome_iff_exists]
  revert mode
  decide

section Call

variable {clocks : SpiClocks} {spi : SpiPort} {s : SpiBus} {device : SpiDevice}
  {c : SpiConfiguration} {mode : U32}

theorem nuSpiBusConfigure_refused (width : ¬c.WidthOk) :
    s.nuSpiBusConfigure clocks spi device c = (-rtEinval, s) := by
  obtain ⟨m, modeOf⟩ := spiModeOf_some c.mode
  unfold SpiBus.nuSpiBusConfigure SpiBus.configureIf
  rw [modeOf]
  exact if_pos width

theorem fullConfigure_accepted (modeOf : spiModeOf c.mode = some mode) (width : c.WidthOk) :
    s.fullConfigure clocks spi device c = (0, (s.setUp clocks spi device c mode).drainRxfifo) := by
  unfold SpiBus.fullConfigure SpiBus.configureIf
  rw [modeOf]
  exact if_neg (not_not.mpr width)

theorem nuSpiBusConfigure_new (new : c ≠ s.configuration) :
    s.nuSpiBusConfigure clocks spi device c = s.fullConfigure clocks spi device c := by
  unfold SpiBus.nuSpiBusConfigure SpiBus.fullConfigure SpiBus.configureIf
  simp only [decide_eq_true new]

theorem nuSpiBusConfigure_same (width : c.WidthOk) (same : c = s.configuration) :
    s.nuSpiBusConfigure clocks spi device c = (0, s.drainRxfifo) := by
  obtain ⟨m, modeOf⟩ := spiModeOf_some c.mode
  unfold SpiBus.nuSpiBusConfigure SpiBus.configureIf
  rw [modeOf]
  dsimp only
  rw [if_neg (not_not.mpr width)]
  simp [same]

theorem setUp_configuration : (s.setUp clocks spi device c mode).drainRxfifo.configuration = c := by
  unfold SpiBus.setUp SpiBus.drainRxfifo
  cases device.csPin <;> rfl

theorem setUp_pins (pin : Nat) : (s.setUp clocks spi device c mode).drainRxfifo.pins pin =
    if device.csPin = some pin then c.idleLevel else s.pins pin := by
  unfold SpiBus.setUp SpiBus.drainRxfifo
  cases device.csPin with
  | none => rfl
  | some own =>
    by_cases here : pin = own
    · simp [here]
    · simp [here, Ne.symm here]

/-- A set-up leaves the level of a device's own pin idle, and a level of the bus's own chip select
that its registers give. -/
theorem setUp_csLevel : (s.setUp clocks spi device c mode).drainRxfifo.csLevel device =
    match device.csPin with
    | some _ => c.idleLevel
    | none => ({ s with regs := spiSetUpRegs clocks spi false c mode s.regs }).csLevel device := by
  unfold SpiBus.csLevel SpiBus.setUp SpiBus.drainRxfifo spiSetUpRegs
  cases device.csPin with
  | some pin => exact Function.update_self pin c.idleLevel s.pins
  | none => rfl

end Call

namespace SpiCall

variable {clocks : SpiClocks} {spi : SpiPort} {pins : Nat → Bool} {s : SpiBus} {log : List SpiCall}
  {call last : SpiCall} {mode : U32}

/-- A bus with the set-ups so far: the last one's configuration is kept, the pins are where the
set-ups left them, and the registers are those of a set-up for the last device's kind. -/
structure Tracks (clocks : SpiClocks) (spi : SpiPort) (pins : Nat → Bool) (s : SpiBus)
    (log : List SpiCall) : Prop where
  first : log = [] → ¬s.configuration.WidthOk
  kept : ∀ last ∈ log.getLast?, s.configuration = last.cfg
  levels : ∀ pin, s.pins pin = lastLevel pins log pin
  regs : ∀ last ∈ log.getLast?, ∀ mode, spiModeOf last.cfg.mode = some mode →
    ∃ before, s.regs = spiSetUpRegs clocks spi last.device.csPin.isSome last.cfg mode before

theorem Tracks.same_iff (tracks : Tracks clocks spi pins s log) (width : call.cfg.WidthOk) :
    call.cfg = s.configuration ↔ log.getLast?.map SpiCall.cfg = some call.cfg := by
  cases last : log.getLast? with
  | none =>
    have empty := tracks.first (List.getLast?_eq_none_iff.mp last)
    refine iff_of_false ?_ (by simp)
    intro same
    exact empty (same ▸ width)
  | some call' =>
    rw [tracks.kept call' last, Option.map_some, Option.some.injEq]
    exact eq_comm

theorem covered_iff (width : call.cfg.WidthOk) (ends : log.getLast? = some last)
    (cfg : last.cfg = call.cfg) : Covered pins log call ↔
      last.device.csPin.isSome = call.device.csPin.isSome ∧
        ∀ pin ∈ call.device.csPin, lastLevel pins log pin = call.cfg.idleLevel := by
  unfold Covered
  rw [ends, forall_prop_of_true width]
  constructor
  · intro covered
    exact covered last rfl cfg
  · rintro both last' same -
    obtain rfl := Option.some.inj same
    exact both

theorem skipped_iff {before : SpiRegs} {own : Bool}
    (regs : s.regs = spiSetUpRegs clocks spi own call.cfg mode before) :
    (s.drainRxfifo.regs = (s.setUp clocks spi call.device call.cfg mode).drainRxfifo.regs ∧
      s.drainRxfifo.rxFifo = (s.setUp clocks spi call.device call.cfg mode).drainRxfifo.rxFifo ∧
      s.drainRxfifo.csLevel call.device =
        (s.setUp clocks spi call.device call.cfg mode).drainRxfifo.csLevel call.device) ↔
      own = call.device.csPin.isSome ∧
        ∀ pin ∈ call.device.csPin, s.pins pin = call.cfg.idleLevel := by
  have kind : s.regs = (s.setUp clocks spi call.device call.cfg mode).drainRxfifo.regs ↔
      own = call.device.csPin.isSome := by
    have again : spiSetUpRegs clocks spi call.device.csPin.isSome call.cfg mode
        (spiSetUpRegs clocks spi own call.cfg mode before) =
        spiSetUpRegs clocks spi own call.cfg mode before ↔ call.device.csPin.isSome = own :=
      spiSetUpRegs_same_iff call.device.csPin.isSome own before
    rw [← regs] at again
    rw [eq_comm, eq_comm (a := own), ← again]
    exact Iff.of_eq (congrArg (· = s.regs) (setUp_regs call.device))
  have drained : s.drainRxfifo.rxFifo =
      (s.setUp clocks spi call.device call.cfg mode).drainRxfifo.rxFifo := rfl
  rw [show s.drainRxfifo.regs = s.regs from rfl, kind, and_iff_right drained, setUp_csLevel]
  refine and_congr_right fun same => ?_
  have all := kind.mpr same
  cases pin : call.device.csPin with
  | some own =>
    have level : s.drainRxfifo.csLevel call.device = s.pins own := by
      unfold SpiBus.csLevel
      rw [pin]
      rfl
    rw [level]
    constructor
    · intro equal pin' here
      obtain rfl := Option.some.inj here
      exact equal
    · intro each
      exact each own rfl
  | none =>
    have none : ∀ pin ∈ (none : Option Nat), s.pins pin = call.cfg.idleLevel := by simp
    refine iff_of_true ?_ none
    have shown : s.regs = spiSetUpRegs clocks spi false call.cfg mode s.regs := by
      have regs' := all.trans (setUp_regs call.device)
      rwa [pin] at regs'
    unfold SpiBus.csLevel
    rw [pin]
    dsimp only
    rw [← shown]
    rfl

theorem Tracks.right_iff (tracks : Tracks clocks spi pins s log) :
    Right clocks spi s call ↔ Covered pins log call := by
  obtain ⟨mode, modeOf⟩ := spiModeOf_some call.cfg.mode
  unfold Right
  by_cases width : call.cfg.WidthOk
  · by_cases same : call.cfg = s.configuration
    · have repeats := (tracks.same_iff width).mp same
      obtain ⟨last, ends, cfg⟩ := Option.map_eq_some_iff.mp repeats
      obtain ⟨before, regs⟩ := tracks.regs last ends mode (cfg ▸ modeOf)
      rw [cfg] at regs
      rw [nuSpiBusConfigure_same width same, fullConfigure_accepted modeOf width,
        covered_iff width ends cfg]
      simp only [← tracks.levels]
      exact skipped_iff regs
    · rw [nuSpiBusConfigure_new same, fullConfigure_accepted modeOf width]
      refine iff_of_true (by simp) ?_
      intro _ last ends cfg
      exact absurd ((tracks.kept last ends).trans cfg).symm same
  · rw [nuSpiBusConfigure_refused width]
    exact iff_of_true (by simp [rtEinval]) fun accepted => absurd accepted width

theorem lastLevel_append (pin : Nat) : lastLevel pins (log ++ [call]) pin =
    if call.device.csPin = some pin then call.cfg.idleLevel else lastLevel pins log pin := by
  unfold lastLevel
  rw [List.filter_append]
  by_cases here : call.device.csPin = some pin
  · simp [here]
  · simp [here]

theorem Tracks.step (tracks : Tracks clocks spi pins s log) :
    Tracks clocks spi pins (step clocks spi s call) (setUps log call) := by
  obtain ⟨mode, modeOf⟩ := spiModeOf_some call.cfg.mode
  unfold SpiCall.step setUps
  by_cases width : call.cfg.WidthOk
  · by_cases same : call.cfg = s.configuration
    · have repeats := (tracks.same_iff width).mp same
      rw [if_neg (fun new => new.2 repeats), nuSpiBusConfigure_same width same]
      exact ⟨tracks.first, tracks.kept, tracks.levels, tracks.regs⟩
    · have new : log.getLast?.map SpiCall.cfg ≠ some call.cfg := mt (tracks.same_iff width).mpr same
      rw [if_pos ⟨width, new⟩, nuSpiBusConfigure_new same, fullConfigure_accepted modeOf width]
      refine ⟨fun empty => by simp at empty, ?_, ?_, ?_⟩
      · intro last ends
        rw [List.getLast?_append, List.getLast?_singleton, Option.some_or, Option.mem_some] at ends
        subst ends
        exact setUp_configuration
      · intro pin
        rw [lastLevel_append, ← tracks.levels]
        exact setUp_pins pin
      · intro last ends other otherOf
        rw [List.getLast?_append, List.getLast?_singleton, Option.some_or, Option.mem_some] at ends
        subst ends
        rw [modeOf, Option.some.injEq] at otherOf
        subst otherOf
        exact ⟨s.regs, setUp_regs call.device⟩
  · rw [if_neg (fun new => width new.1), nuSpiBusConfigure_refused width]
    exact tracks

end SpiCall

/-- A bus before its first call: the registers, the receive FIFO and the pins may be anything. -/
def SpiBus.start (regs : SpiRegs) (rxFifo : Nat) (pins : Nat → Bool) : SpiBus :=
  ⟨regs, rxFifo, pins, ⟨0, 0, 0, 0⟩⟩

theorem SpiCall.start_tracks (clocks : SpiClocks) (spi : SpiPort) (regs : SpiRegs) (rxFifo : Nat)
    (pins : Nat → Bool) : SpiCall.Tracks clocks spi pins (.start regs rxFifo pins) [] := by
  have width : ¬(SpiConfiguration.mk 0 0 0 0).WidthOk := by decide
  exact ⟨fun _ => width, by simp, fun _ => rfl, by simp⟩

open SpiCall in
/-- Every call leaves what the full sequence would exactly if each one that repeats the configuration of
the last set-up is for a device of the same kind of chip select, whose own pin is idle. -/
theorem spi_cache_iff (clocks : SpiClocks) (spi : SpiPort) (regs : SpiRegs) (rxFifo : Nat)
    (pins : Nat → Bool) (calls : List SpiCall) :
    Runs.StepsMeet (SpiCall.step clocks spi) (Right clocks spi) (.start regs rxFifo pins) calls ↔
      Runs.StepsMeet setUps (Covered pins) [] calls := by
  refine Runs.stepsMeet_simulate (Tracks clocks spi pins) ?_ ?_
    (start_tracks clocks spi regs rxFifo pins) calls
  · intro s log call tracks
    exact tracks.right_iff
  · intro s log call tracks
    exact tracks.step

def spiMode0 : SpiConfiguration := ⟨4, 8, 0, 1000000⟩

/-- Two devices with pins 1 and 2 and one configuration: the second pin stays low. -/
theorem secondDevice_selected : ¬Runs.StepsMeet (SpiCall.step ⟨180000000, 0, 180000000, 180000000⟩ .spi0)
    (SpiCall.Right ⟨180000000, 0, 180000000, 180000000⟩ .spi0)
    (.start ⟨0, 0, 0, 0, 0⟩ 0 fun _ => false) [⟨⟨some 1⟩, spiMode0⟩, ⟨⟨some 2⟩, spiMode0⟩] := by
  intro right
  have second := (Runs.stepsMeet_cons.mp (Runs.stepsMeet_cons.mp right).2).1
  have tracks : SpiCall.Tracks _ _ _ _ (SpiCall.setUps [] ⟨⟨some 1⟩, spiMode0⟩) :=
    (SpiCall.start_tracks ⟨180000000, 0, 180000000, 180000000⟩ .spi0 ⟨0, 0, 0, 0, 0⟩ 0
      fun _ => false).step
  have covered := tracks.right_iff.mp second (by decide) ⟨⟨some 1⟩, spiMode0⟩ rfl rfl
  exact absurd (covered.2 2 rfl) (by decide)

end NuMakerMA35
