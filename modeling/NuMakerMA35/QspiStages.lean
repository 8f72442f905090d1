import NuMakerMA35.QspiFraming

namespace NuMakerMA35

namespace QspiBus

variable (bus : QspiBus)

theorem bytesPerWord_cases : bus.bytesPerWord = 1 ∨ bus.bytesPerWord = 2 ∨ bus.bytesPerWord = 3 ∨
    bus.bytesPerWord = 4 := by
  unfold bytesPerWord
  rcases bus.widthAccepted with h | h | h | h <;> omega

theorem shift_full (mode : QspiMode) {written : List (BitVec 8)}
    (full : written.length = bus.bytesPerWord) :
    bus.shift mode written = .word mode.lines bus.bytesPerWord
      (if mode.drives then some (bus.wireOrder written) else none) := by
  rw [shift, List.take_append_of_le_length (by omega), List.take_of_length_le (by omega)]

theorem wireOrder_length (bytes : List (BitVec 8)) : (bus.wireOrder bytes).length = bytes.length := by
  unfold wireOrder
  split_ifs <;> simp

end QspiBus

theorem bigEndian_length (n : Nat) (val : U32) : (bigEndian n val).length = n := by
  simp [bigEndian]

theorem nuSetBe_eq {n : Nat} (some : 0 < n) (fits : n ≤ 4) (val : U32) :
    nuSetBe n val = .some fun i => (bigEndian n val).getD i 0 := by
  obtain rfl | rfl | rfl | rfl : n = 1 ∨ n = 2 ∨ n = 3 ∨ n = 4 := by omega
  all_goals rfl

def byteTransfer (qspiLines : Nat) (bytes : List (BitVec 8)) : QspiTransfer :=
  ⟨qspiLines, some ⟨0, fun i => bytes.getD i 0⟩, none, BitVec.ofNat 32 bytes.length, 1⟩

namespace QspiField

variable {field : QspiField} {bus : QspiBus}

def transfer (field : QspiField) : QspiTransfer :=
  byteTransfer field.qspiLines.toNat (bigEndian (field.size.toNat / 8) field.content)

theorem send_eq (valid : field.Valid) (present : field.present) (mode : QspiMode) :
    field.send bus mode = (do
      let mode ← field.transfer.run bus mode
      pure (field.qspiLines.toNat, mode)) := by
  have whole := valid.whole
  have fits := valid.fits
  have nonzero : field.size.toNat ≠ 0 := present
  unfold send transfer byteTransfer
  simp only [nuSetBe_eq (show 0 < field.size.toNat / 8 by omega)
    (show field.size.toNat / 8 ≤ 4 by omega), bigEndian_length]

end QspiField

namespace QspiMessage

variable (msg : QspiMessage) (bus : QspiBus)

def sentLines : Nat :=
  if msg.address.present then msg.address.qspiLines.toNat
  else if msg.instruction ≠ 0 then msg.instructionLines.toNat
  else 1

def instructionTransfers : List QspiTransfer :=
  if msg.instruction ≠ 0 then [byteTransfer msg.instructionLines.toNat [msg.instruction]] else []

def addressTransfers : List QspiTransfer :=
  if msg.address.present then [msg.address.transfer] else []

def dummyTransfer : QspiTransfer :=
  ⟨msg.sentLines, some bus.dummyBuffer, none,
    BitVec.ofNat 32 (msg.dummyCycles.toNat / (8 / msg.sentLines)), 1⟩

def dummyTransfers : List QspiTransfer :=
  if msg.dummyCycles.toNat ≠ 0 then [msg.dummyTransfer bus] else []

def dataTransfer : QspiTransfer :=
  ⟨msg.qspiDataLines.toNat, msg.sendBuf, msg.recvBuf, msg.length, bus.bytesPerWord⟩

def dataTransfers : List QspiTransfer :=
  if msg.length.toNat ≠ 0 then [msg.dataTransfer bus] else []

def transfers : List QspiTransfer :=
  msg.instructionTransfers ++ msg.addressTransfers ++ msg.dummyTransfers bus ++ msg.dataTransfers bus

variable {msg} {bus}

theorem alternateStage_eq (valid : msg.alternateBytes.Valid) (last : Nat) (mode : QspiMode) :
    msg.alternateStage bus last mode = pure (last, mode) := by
  have whole := valid.whole
  exact if_neg (by omega)

theorem sentLines_lineCount (valid : msg.Valid) : LineCount msg.sentLines := by
  unfold sentLines
  split_ifs with address instruction
  · exact valid.address.lineCount address
  · exact valid.instruction instruction
  · exact .inl rfl

theorem commandStage_eq (mode : QspiMode) :
    msg.commandStage bus mode = (do
      let mode ← QspiTransfer.runAll bus msg.instructionTransfers mode
      pure (if msg.instruction ≠ 0 then msg.instructionLines.toNat else 1, mode)) := by
  unfold commandStage instructionTransfers
  split_ifs with absent
  · simp only [QspiTransfer.runAll, bind_pure]
    rfl
  · rfl

theorem addressStage_eq (valid : msg.Valid) (mode : QspiMode) :
    msg.addressStage bus (if msg.instruction ≠ 0 then msg.instructionLines.toNat else 1) mode = (do
      let mode ← QspiTransfer.runAll bus msg.addressTransfers mode
      pure (msg.sentLines, mode)) := by
  unfold addressStage addressTransfers sentLines
  by_cases present : msg.address.present
  · rw [if_pos (Nat.pos_of_ne_zero present), if_pos present, if_pos present,
      QspiField.send_eq valid.address present]
    simp only [QspiTransfer.runAll, bind_pure]
  · rw [if_neg (by unfold QspiField.present at present; omega), if_neg present, if_neg present]
    rfl

theorem dummyStage_eq (valid : msg.Valid) (mode : QspiMode) :
    msg.dummyStage bus msg.sentLines mode = QspiTransfer.runAll bus (msg.dummyTransfers bus) mode := by
  have lineCount := sentLines_lineCount valid
  unfold dummyStage dummyTransfers
  by_cases some : msg.dummyCycles.toNat ≠ 0
  · have divides : ¬(msg.sentLines = 0 ∨ 8 / msg.sentLines = 0) := by
      rcases lineCount with h | h | h <;> simp [h]
    rw [if_pos (by omega), if_neg divides, if_pos some]
    simp only [QspiTransfer.runAll, bind_pure]
    rfl
  · rw [if_neg (by omega), if_neg some]
    rfl

theorem dataStage_eq (mode : QspiMode) :
    msg.dataStage bus mode = (do
      let mode ← QspiTransfer.runAll bus (msg.dataTransfers bus) mode
      pure (if msg.length.toNat ≠ 0 then msg.length else 1, mode)) := by
  unfold dataStage dataTransfers
  by_cases some : msg.length.toNat ≠ 0
  · rw [if_pos (by omega), if_pos some, if_pos some]
    simp only [QspiTransfer.runAll, bind_pure]
    rfl
  · rw [if_neg (by omega), if_neg some, if_neg some]
    rfl

theorem nuQspiBusXfer_eq (valid : msg.Valid) (mode : QspiMode) :
    nuQspiBusXfer bus msg mode = (do
      msg.takeCs bus
      let mode ← QspiTransfer.runAll bus (msg.transfers bus) mode
      msg.releaseCs bus
      pure (if msg.length.toNat ≠ 0 then msg.length else 1, mode)) := by
  simp only [nuQspiBusXfer, transfers, QspiTransfer.runAll_append, commandStage_eq,
    alternateStage_eq valid.alternate, dataStage_eq, bind_assoc, pure_bind,
    addressStage_eq valid, dummyStage_eq valid]

end QspiMessage

end NuMakerMA35
