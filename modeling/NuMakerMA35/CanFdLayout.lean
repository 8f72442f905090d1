import NuMakerMA35.CanFdRam

namespace NuMakerMA35

namespace CanfdPart

def offset (size : CanfdElemSizeT) : CanfdPart → Nat
  | sid => 0
  | xid => sid.count size * canfdSidSize
  | rf0 => sid.count size * canfdSidSize + xid.count size * canfdXidSize
  | rf1 => sid.count size * canfdSidSize + xid.count size * canfdXidSize +
      rf0.count size * canfdRxBufSize
  | drb => sid.count size * canfdSidSize + xid.count size * canfdXidSize +
      rf0.count size * canfdRxBufSize + rf1.count size * canfdRxBufSize
  | tef => sid.count size * canfdSidSize + xid.count size * canfdXidSize +
      rf0.count size * canfdRxBufSize + rf1.count size * canfdRxBufSize +
      drb.count size * canfdRxBufSize
  | dtb => sid.count size * canfdSidSize + xid.count size * canfdXidSize +
      rf0.count size * canfdRxBufSize + rf1.count size * canfdRxBufSize +
      drb.count size * canfdRxBufSize + tef.count size * canfdTxEventSize

def startIn (part : CanfdRamPart) : CanfdPart → Nat
  | sid => part.flssa
  | xid => part.flesa
  | rf0 => part.f0sa
  | rf1 => part.f1sa
  | drb => part.rbsa
  | tef => part.efsa
  | dtb => part.tbsa

end CanfdPart

namespace CanfdElemSizeT

variable (size : CanfdElemSizeT)

/-- What all elements take, the Tx elements as they are limited. -/
def total : Nat := CanfdPart.dtb.offset size.limitTx + CanfdPart.dtb.count size.limitTx * canfdTxBufSize

def toSize : CanfdElemSize where
  sidfc := size.sidfc.toNat
  xidfc := size.xidfc.toNat
  rxFifo0 := size.rxFifo0.toNat
  rxFifo1 := size.rxFifo1.toNat
  rxBuf := size.rxBuf.toNat
  txEventFifo := size.txEventFifo.toNat
  txBuf := size.txBuf.toNat
  txFifoQueue := size.txFifoQueue.toNat

variable {size}

theorem limitTx_eq : ∃ a b, size.limitTx = { size with txBuf := a, txFifoQueue := b } ∧
    (32 < (size.txBuf + size.txFifoQueue).toNat ∧ a.toNat + b.toNat = 32 ∨
      (size.txBuf + size.txFifoQueue).toNat ≤ 32 ∧ a = size.txBuf ∧ b = size.txFifoQueue) := by
  unfold limitTx
  split_ifs with many
  · exact ⟨16, 16, rfl, .inl ⟨many, rfl⟩⟩
  · exact ⟨_, _, rfl, .inr ⟨by omega, rfl, rfl⟩⟩

end CanfdElemSizeT

section Starts

variable {old : CanfdRamPartT} {size : CanfdElemSizeT}

theorem start_eq_offset
    (small : ∀ p : CanfdPart, p.count size.limitTx * p.elementBytes ≤ canfdSramSize)
    (p : CanfdPart) (some : p.count size.limitTx ≠ 0) :
    p.start (canfdCalculateRamAddressT old size).1 = p.offset size.limitTx := by
  have sid := small .sid
  have xid := small .xid
  have rf0 := small .rf0
  have rf1 := small .rf1
  have drb := small .drb
  have tef := small .tef
  have dtb := small .dtb
  obtain ⟨a, b, limited, tx⟩ := size.limitTx_eq
  rw [limited] at sid xid rf0 rf1 drb tef dtb some ⊢
  have four : (4 : U32).toNat = 4 := rfl
  have eight : (8 : U32).toNat = 8 := rfl
  have element : (72 : U32).toNat = 72 := rfl
  simp only [CanfdPart.count, CanfdPart.elementBytes, canfdSidSize, canfdXidSize, canfdRxBufSize,
    canfdTxEventSize, canfdTxBufSize, canfdSramSize] at sid xid rf0 rf1 drb tef dtb
  cases p with
  | sid =>
    have given : size.sidfc ≠ 0 := fun none => some (congrArg BitVec.toNat none)
    exact congrArg BitVec.toNat (if_pos given)
  | dtb =>
    simp only [CanfdPart.count] at some
    have sum := BitVec.toNat_add size.txBuf size.txFifoQueue
    have given : size.txBuf + size.txFifoQueue ≠ 0 := by
      intro none
      have zero : (0 : U32).toNat = 0 := rfl
      rw [none, zero] at sum tx
      rcases tx with ⟨many, -⟩ | ⟨-, rfl, rfl⟩ <;> omega
    rw [CanfdPart.start, canfdCalculateRamAddressT, if_pos given]
    simp only [BitVec.toNat_add, BitVec.toNat_mul, four, eight, element, CanfdPart.offset,
      CanfdPart.count, canfdSidSize, canfdXidSize, canfdRxBufSize, canfdTxEventSize]
    omega
  | _ =>
    simp only [CanfdPart.count] at some
    simp only [CanfdPart.start, canfdCalculateRamAddressT]
    rw [if_pos (by intro none; rw [none] at some; exact some rfl)]
    simp only [BitVec.toNat_add, BitVec.toNat_mul, four, eight, element, CanfdPart.offset,
      CanfdPart.count, canfdSidSize, canfdXidSize, canfdRxBufSize]
    omega

theorem small_of_total (fits : size.total ≤ canfdSramSize) (p : CanfdPart) :
    p.offset size.limitTx + p.count size.limitTx * p.elementBytes ≤ canfdSramSize := by
  unfold CanfdElemSizeT.total at fits
  simp only [CanfdPart.offset, canfdSidSize, canfdXidSize, canfdRxBufSize, canfdTxEventSize,
    canfdTxBufSize] at fits
  cases p <;> simp only [CanfdPart.offset, CanfdPart.elementBytes, canfdSidSize, canfdXidSize,
    canfdRxBufSize, canfdTxEventSize, canfdTxBufSize] <;> omega

theorem start_of_fits (old : CanfdRamPartT) (fits : size.total ≤ canfdSramSize) (p : CanfdPart)
    (some : p.count size.limitTx ≠ 0) :
    p.start (canfdCalculateRamAddressT old size).1 = p.offset size.limitTx :=
  start_eq_offset (fun q => Nat.le_of_add_left_le (small_of_total fits q)) p some

theorem calculateRamAddressT_refines (old : CanfdRamPartT) (before : CanfdRamPart)
    (fits : size.total ≤ canfdSramSize) (p : CanfdPart) (some : p.count size.limitTx ≠ 0) :
    p.start (canfdCalculateRamAddressT old size).1 =
      p.startIn (canfdCalculateRamAddress before size.limitTx.toSize) := by
  rw [start_of_fits old fits p some]
  have positive := Nat.pos_of_ne_zero some
  cases p with
  | sid => exact (if_pos positive).symm
  | xid => exact (if_pos positive).symm
  | rf0 => exact (if_pos positive).symm
  | rf1 => exact (if_pos positive).symm
  | drb => exact (if_pos positive).symm
  | tef => exact (if_pos positive).symm
  | dtb => exact (if_pos positive).symm

theorem holds_some {part : CanfdRamPartT} {p : CanfdPart} {x : Nat}
    (holds : (p.region part size).Holds x) : p.count size ≠ 0 := by
  intro none
  obtain ⟨low, high⟩ := holds
  rw [CanfdPart.region, none, Nat.zero_mul] at low high
  exact absurd low (Nat.not_le_of_lt high)

theorem offset_apart (size : CanfdElemSizeT) {p q : CanfdPart} (other : p ≠ q) :
    p.offset size + p.count size * p.elementBytes ≤ q.offset size ∨
      q.offset size + q.count size * q.elementBytes ≤ p.offset size := by
  cases p <;> cases q <;> first
    | exact absurd rfl other
    | simp only [CanfdPart.offset, CanfdPart.elementBytes, canfdSidSize, canfdXidSize,
        canfdRxBufSize, canfdTxEventSize, canfdTxBufSize]
      omega

theorem layoutSafe_iff : CanfdLayoutSafe old size ↔ size.total ≤ canfdSramSize := by
  unfold CanfdLayoutSafe
  constructor
  · rintro ⟨within, -⟩
    have small : ∀ p : CanfdPart, p.count size.limitTx * p.elementBytes ≤ canfdSramSize := by
      intro p
      rcases Nat.eq_zero_or_pos (p.count size.limitTx) with none | some
      · rw [none, Nat.zero_mul]
        exact Nat.zero_le _
      · exact (Nat.le_add_left _ _).trans (within p some)
    have bound (p : CanfdPart) : p.count size.limitTx = 0 ∨
        p.offset size.limitTx + p.count size.limitTx * p.elementBytes ≤ canfdSramSize := by
      rcases Nat.eq_zero_or_pos (p.count size.limitTx) with none | some
      · exact .inl none
      · have here := within p some
        rw [CanfdPart.region, start_eq_offset small p (by omega)] at here
        exact .inr here
    have sid := bound .sid
    have xid := bound .xid
    have rf0 := bound .rf0
    have rf1 := bound .rf1
    have drb := bound .drb
    have tef := bound .tef
    have dtb := bound .dtb
    unfold CanfdElemSizeT.total
    simp only [CanfdPart.offset, CanfdPart.elementBytes, canfdSidSize, canfdXidSize,
      canfdRxBufSize, canfdTxEventSize, canfdTxBufSize, canfdSramSize] at *
    omega
  · intro fits
    refine ⟨?_, ?_⟩
    · intro p some
      have start := start_of_fits old fits p (Nat.ne_of_gt some)
      dsimp only [CanfdPart.region]
      rw [start]
      exact small_of_total fits p
    · rintro p q other x ⟨inP, inQ⟩
      have startP := start_of_fits old fits p (holds_some inP)
      have startQ := start_of_fits old fits q (holds_some inQ)
      have apart := offset_apart size.limitTx other
      obtain ⟨lowP, highP⟩ := inP
      obtain ⟨lowQ, highQ⟩ := inQ
      dsimp only [CanfdPart.region] at lowP highP lowQ highQ
      rw [startP] at lowP highP
      rw [startQ] at lowQ highQ
      change x < _ + p.count size.limitTx * _ at highP
      change x < _ + q.count size.limitTx * _ at highQ
      omega

end Starts

end NuMakerMA35
