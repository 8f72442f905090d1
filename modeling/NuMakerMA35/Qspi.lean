import NuMakerMA35.Logged
import NuMakerMA35.PdmaChain
import NuMakerMA35.Words

namespace NuMakerMA35

structure SpiBuffer where
  address : U32
  byte : Nat → BitVec 8

/-- The address or the alternate bytes of a message; the size is in bits. -/
structure QspiField where
  content : U32
  size : BitVec 8
  qspiLines : BitVec 8

structure QspiMessage where
  instruction : BitVec 8
  instructionLines : BitVec 8
  address : QspiField
  alternateBytes : QspiField
  dummyCycles : U32
  qspiDataLines : BitVec 8
  sendBuf : Option SpiBuffer
  recvBuf : Option U32
  length : U32
  csTake : Bool
  csRelease : Bool

structure QspiMode where
  dual : Bool
  quad : Bool
  output : Bool

namespace QspiMode

variable (mode : QspiMode)

/-- The lines data go over; none that can be told with both modes enabled. -/
def lines : Option Nat :=
  match mode.dual, mode.quad with
  | false, false => some 1
  | true, false => some 2
  | false, true => some 4
  | true, true => none

/-- One line has its own data output; the direction counts for two lines and four. -/
def drives : Bool := mode.output || mode.lines = some 1

/-- `nu_qspi_mode_config`; enabling one mode leaves the other as it is. -/
def config (tx : Bool) (qspiLines : Nat) : QspiMode :=
  if qspiLines > 1 then
    if qspiLines = 2 then { mode with dual := true, output := tx }
    else if qspiLines = 4 then { mode with quad := true, output := tx }
    else mode
  else { mode with dual := false, quad := false }

end QspiMode

/-- What is seen on the bus: chip select going to a level, and words of `data_width` with the bytes
the master drives, if it does. -/
inductive QspiEvent where
  | select (high : Bool)
  | word (lines : Option Nat) (width : Nat) (driven : Option (List (BitVec 8)))
  deriving DecidableEq

inductive QspiFault where
  | assertion
  | badPointer
  | divideByZero
  deriving DecidableEq

abbrev Qspi (α : Type) := Logged QspiFault QspiEvent α

/-- A configured bus, opened as a master. `dummy` is what the dummy buffer holds, `sgTables` whether
the PDMA channels have the descriptors for so many units or can have them. -/
structure QspiBus where
  dataWidth : Nat
  widthAccepted : dataWidth = 8 ∨ dataWidth = 16 ∨ dataWidth = 24 ∨ dataWidth = 32
  csHigh : Bool
  noCs : Bool
  msb : Bool
  dummyAddress : U32
  dummy : Nat → BitVec 8
  pdma : Bool
  sgTables : Nat → Bool

structure QspiTransfer where
  qspiLines : Nat
  tx : Option SpiBuffer
  rx : Option U32
  length : U32
  bytesPerWord : Nat

def nuSpiUsePdmaMinThreshold : Int := 128

/-- The units that a transfer of `count` units moves: past the first 65536, a multiple of it gets a
last descriptor of 0, which stands for 65536. -/
def nuPdmaUnits (count : Nat) : Nat :=
  if nuPdmaMaxTxcnt < count ∧ nuPdmaMaxTxcnt ∣ count then count + nuPdmaMaxTxcnt else count

namespace QspiBus

variable (bus : QspiBus)

def bytesPerWord : Nat := bus.dataWidth / 8

def wireOrder (bytes : List (BitVec 8)) : List (BitVec 8) := if bus.msb then bytes.reverse else bytes

/-- `nu_spi_write`: the bytes fill `TX` from below, and a word of `data_width` is shifted out. -/
def shift (mode : QspiMode) (written : List (BitVec 8)) : QspiEvent :=
  .word mode.lines bus.bytesPerWord
    (if mode.drives then
      some (bus.wireOrder ((written ++ List.replicate 4 0).take bus.bytesPerWord))
    else none)

/-- The dummy buffer, its first word cleared before use. -/
def dummyBuffer : SpiBuffer := ⟨bus.dummyAddress, fun k => if k < 4 then 0 else bus.dummy k⟩

end QspiBus

namespace QspiTransfer

variable (t : QspiTransfer) (bus : QspiBus)

/-- What the words are taken from: a missing buffer is stood in for by the dummy's first word. -/
def source (i : Nat) : List (BitVec 8) :=
  match t.tx with
  | some tx => Words.slice tx.byte (i * t.bytesPerWord) t.bytesPerWord
  | none => Words.slice bus.dummyBuffer.byte 0 t.bytesPerWord

def pollLoop (mode : QspiMode) : Nat → Nat → Int → List QspiEvent
  | 0, _, _ => []
  | fuel + 1, i, length =>
    if 0 < length then
      bus.shift mode (t.source bus i) :: pollLoop mode fuel (i + 1) (length - t.bytesPerWord)
    else []

/-- `nu_spi_transmission_with_poll`; it takes a missing pair of buffers for two buffers. -/
def poll (mode : QspiMode) : Qspi Unit := fun log =>
  if t.tx.isNone ∧ t.rx.isNone ∧ 0 < t.length.toInt then (.error .badPointer, log)
  else (.ok (), log ++ t.pollLoop bus mode t.length.toNat 0 t.length.toInt)

def pdmaTransmit (mode : QspiMode) : Qspi Unit := fun log =>
  let count := (t.length.toInt / t.bytesPerWord).toNat
  if nuPdmaMaxTxcnt < count ∧ bus.sgTables count = false then (.error .assertion, log)
  else
    (.ok (), log ++ (List.range (nuPdmaUnits count)).map fun i => bus.shift mode (t.source bus i))

def usesPdma : Bool :=
  bus.pdma ∧ (t.tx.map SpiBuffer.address).getD 0 % BitVec.ofNat 32 t.bytesPerWord = 0 ∧
    t.rx.getD 0 % BitVec.ofNat 32 t.bytesPerWord = 0 ∧ t.bytesPerWord ≠ 3 ∧
    nuSpiUsePdmaMinThreshold ≤ t.length.toInt

def nuSpiTransfer (mode : QspiMode) : Qspi Unit :=
  if t.usesPdma bus then t.pdmaTransmit bus mode else t.poll bus mode

/-- `nu_qspi_mode_config`, then `nu_spi_transfer`. -/
def run (mode : QspiMode) : Qspi QspiMode := do
  let mode := mode.config t.tx.isSome t.qspiLines
  t.nuSpiTransfer bus mode
  pure mode

def count : Nat :=
  if t.usesPdma bus then nuPdmaUnits (t.length.toInt / t.bytesPerWord).toNat
  else (t.length.toInt.toNat + t.bytesPerWord - 1) / t.bytesPerWord

def words (mode : QspiMode) : List QspiEvent :=
  (List.range (t.count bus)).map fun i => bus.shift mode (t.source bus i)

/-- There is a buffer, and the descriptors of a long transfer can be had. -/
structure Granted : Prop where
  buffer : t.tx.isSome ∨ t.rx.isSome
  tables : t.usesPdma bus → nuPdmaMaxTxcnt < (t.length.toInt / t.bytesPerWord).toNat →
    bus.sgTables (t.length.toInt / t.bytesPerWord).toNat = true

theorem pollLoop_eq (mode : QspiMode) (positive : 0 < t.bytesPerWord) (fuel : Nat) :
    ∀ (i : Nat) (length : Int), length ≤ fuel →
      t.pollLoop bus mode fuel i length =
        (List.range' i ((length.toNat + t.bytesPerWord - 1) / t.bytesPerWord)).map
          fun i => bus.shift mode (t.source bus i) := by
  induction fuel with
  | zero =>
    intro i length enough
    have none : (length.toNat + t.bytesPerWord - 1) / t.bytesPerWord = 0 :=
      Nat.div_eq_of_lt (by omega)
    rw [pollLoop, none, List.range'_zero, List.map_nil]
  | succ fuel ih =>
    intro i length enough
    rw [pollLoop]
    by_cases more : 0 < length
    · have one : (length.toNat + t.bytesPerWord - 1) / t.bytesPerWord =
          ((length - t.bytesPerWord).toNat + t.bytesPerWord - 1) / t.bytesPerWord + 1 := by
        by_cases last : length ≤ t.bytesPerWord
        · rw [Nat.div_eq_of_lt (by omega : (length - t.bytesPerWord).toNat + t.bytesPerWord - 1 < _)]
          exact Nat.div_eq_of_lt_le (by omega) (by omega)
        · rw [← Nat.add_div_right _ positive]
          congr 1
          omega
      rw [if_pos more, ih (i + 1) (length - t.bytesPerWord) (by omega), one, List.range'_succ,
        List.map_cons]
    · have none : (length.toNat + t.bytesPerWord - 1) / t.bytesPerWord = 0 :=
        Nat.div_eq_of_lt (by omega)
      rw [if_neg more, none, List.range'_zero, List.map_nil]

variable {t bus}

theorem run_granted (positive : 0 < t.bytesPerWord) (granted : t.Granted bus) (mode : QspiMode)
    (log : List QspiEvent) :
    t.run bus mode log = (.ok (mode.config t.tx.isSome t.qspiLines),
      log ++ t.words bus (mode.config t.tx.isSome t.qspiLines)) := by
  refine Logged.bind_ok (f := fun _ => pure (mode.config t.tx.isSome t.qspiLines)) (a := ()) ?_
  unfold nuSpiTransfer
  by_cases pdma : t.usesPdma bus
  · have tables : ¬(nuPdmaMaxTxcnt < (t.length.toInt / t.bytesPerWord).toNat ∧
        bus.sgTables (t.length.toInt / t.bytesPerWord).toNat = false) := by
      intro refused
      simp [granted.tables pdma refused.1] at refused
    rw [if_pos pdma, pdmaTransmit, if_neg tables, words, count, if_pos pdma]
  · have buffer : ¬(t.tx.isNone ∧ t.rx.isNone ∧ 0 < t.length.toInt) := by
      intro ⟨noTx, noRx, _⟩
      rcases granted.buffer with given | given
      · simp [Option.isNone_iff_eq_none.mp noTx] at given
      · simp [Option.isNone_iff_eq_none.mp noRx] at given
    have signed : t.length.toInt ≤ t.length.toNat := by
      rw [BitVec.toInt_eq_toNat_cond]
      split_ifs <;> omega
    rw [if_neg pdma, poll, if_neg buffer, pollLoop_eq t bus _ positive _ _ _ signed, words, count,
      if_neg pdma, List.range_eq_range']

theorem run_ok (buffer : t.tx.isSome ∨ t.rx.isSome) {mode after : QspiMode}
    {log log' : List QspiEvent} (run : t.run bus mode log = (.ok after, log')) : t.Granted bus := by
  refine ⟨buffer, ?_⟩
  intro pdma large
  by_contra refused
  rw [Bool.not_eq_true] at refused
  obtain ⟨_, mid, transfer, -⟩ := Logged.bind_ok_iff.mp run
  rw [nuSpiTransfer, if_pos pdma, pdmaTransmit, if_pos ⟨large, refused⟩] at transfer
  cases transfer

end QspiTransfer

/-- `nu_set16_be`, `nu_set24_be` and `nu_set32_be` into a cleared word, by the number of bytes; a
single byte is masked. -/
def nuSetBe : Nat → U32 → Option (Nat → BitVec 8)
  | 1, val => some fun i => [val.extractLsb' 0 8].getD i 0
  | 2, val => some fun i => [val.extractLsb' 8 8, val.extractLsb' 0 8].getD i 0
  | 3, val => some fun i =>
    [val.extractLsb' 16 8, val.extractLsb' 8 8, val.extractLsb' 0 8].getD i 0
  | 4, val => some fun i =>
    [val.extractLsb' 24 8, val.extractLsb' 16 8, val.extractLsb' 8 8, val.extractLsb' 0 8].getD i 0
  | _, _ => none

namespace QspiField

variable (field : QspiField)

def send (bus : QspiBus) (mode : QspiMode) : Qspi (Nat × QspiMode) := do
  let numOfByte := field.size.toNat / 8
  match nuSetBe numOfByte field.content with
  | none => Logged.fail .assertion
  | some reversed => do
    let mode ← QspiTransfer.run ⟨field.qspiLines.toNat, some ⟨0, reversed⟩, none,
      BitVec.ofNat 32 numOfByte, 1⟩ bus mode
    pure (field.qspiLines.toNat, mode)

end QspiField

namespace QspiMessage

variable (msg : QspiMessage) (bus : QspiBus)

def takeCs : Qspi Unit :=
  if msg.csTake ∧ ¬bus.noCs then Logged.issue (.select bus.csHigh) fun _ => () else pure ()

def releaseCs : Qspi Unit :=
  if msg.csRelease ∧ ¬bus.noCs then Logged.issue (.select !bus.csHigh) fun _ => () else pure ()

/-- The stages hand on `u8last` and what is left in `CTL`. -/
def commandStage (mode : QspiMode) : Qspi (Nat × QspiMode) :=
  if msg.instruction ≠ 0 then do
    let mode ← QspiTransfer.run ⟨msg.instructionLines.toNat,
      some ⟨0, fun i => [msg.instruction].getD i 0⟩, none, 1, 1⟩ bus mode
    pure (msg.instructionLines.toNat, mode)
  else pure (1, mode)

def addressStage (last : Nat) (mode : QspiMode) : Qspi (Nat × QspiMode) :=
  if msg.address.size.toNat > 0 then msg.address.send bus mode else pure (last, mode)

/-- The guard compares the size, which is in bits, with four. -/
def alternateStage (last : Nat) (mode : QspiMode) : Qspi (Nat × QspiMode) :=
  if msg.alternateBytes.size.toNat > 0 ∧ msg.alternateBytes.size.toNat ≤ 4 then
    msg.alternateBytes.send bus mode
  else pure (last, mode)

def dummyStage (last : Nat) (mode : QspiMode) : Qspi QspiMode :=
  if msg.dummyCycles.toNat > 0 then
    if last = 0 ∨ 8 / last = 0 then Logged.fail .divideByZero
    else QspiTransfer.run ⟨last, some bus.dummyBuffer, none,
        BitVec.ofNat 32 (msg.dummyCycles.toNat / (8 / last)), 1⟩ bus mode
  else pure mode

def dataStage (mode : QspiMode) : Qspi (U32 × QspiMode) :=
  if msg.length.toNat > 0 then do
    let mode ← QspiTransfer.run ⟨msg.qspiDataLines.toNat, msg.sendBuf, msg.recvBuf, msg.length,
      bus.bytesPerWord⟩ bus mode
    pure (msg.length, mode)
  else pure (1, mode)

end QspiMessage

/-- `nu_qspi_bus_xfer`; with the length it returns what it leaves in `CTL`. -/
def nuQspiBusXfer (bus : QspiBus) (msg : QspiMessage) (mode : QspiMode) :
    Qspi (U32 × QspiMode) := do
  msg.takeCs bus
  let (last, mode) ← msg.commandStage bus mode
  let (last, mode) ← msg.addressStage bus last mode
  let (last, mode) ← msg.alternateStage bus last mode
  let mode ← msg.dummyStage bus last mode
  let (len, mode) ← msg.dataStage bus mode
  msg.releaseCs bus
  pure (len, mode)

end NuMakerMA35
