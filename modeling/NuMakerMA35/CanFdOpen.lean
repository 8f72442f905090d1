import NuMakerMA35.CanFdLayout

namespace NuMakerMA35

open Words

namespace CanfdSetup

variable {part : CanfdRamPartT} {size : CanfdElemSizeT} (s : CanfdSetup)

theorem memsetZero_none (ram : Mem) (a : Nat) : memsetZero ram a 0 = ram := by
  funext x
  exact if_neg (by omega)

theorem sidfc_stage : (if size.sidfc ≠ 0 then s.configSidfc part size else s) =
    ⟨{ s.regs with
        sidfc := if size.sidfc ≠ 0 then
          (size.sidfc &&& 0xff) <<< 16 ||| (part.flssa &&& canfdAddrMsk) else s.regs.sidfc },
      memsetZero s.ram s.regs.part.flssa (size.sidfc * 4).toNat⟩ := by
  by_cases some : size.sidfc ≠ 0
  · rw [if_pos some, if_pos some]
    rfl
  · have none : (size.sidfc * 4).toNat = 0 := by rw [not_not.mp some]; rfl
    rw [if_neg some, if_neg some, none, memsetZero_none]

theorem xidfc_stage : (if size.xidfc ≠ 0 then s.configXidfc part size else s) =
    ⟨{ s.regs with
        xidfc := if size.xidfc ≠ 0 then
          (size.xidfc &&& 0xff) <<< 16 ||| (part.flesa &&& canfdAddrMsk) else s.regs.xidfc },
      memsetZero s.ram s.regs.part.flesa (size.xidfc * 8).toNat⟩ := by
  by_cases some : size.xidfc ≠ 0
  · rw [if_pos some, if_pos some]
    rfl
  · have none : (size.xidfc * 8).toNat = 0 := by rw [not_not.mp some]; rfl
    rw [if_neg some, if_neg some, none, memsetZero_none]

theorem txDBuf_stage (limited : size.limitTx = size) :
    (if size.txBuf ≠ 0 ∨ size.txFifoQueue ≠ 0 then s.initTxDBuf part size else s) =
      ⟨{ s.regs with
          txbc := if size.txBuf ≠ 0 ∨ size.txFifoQueue ≠ 0 then
            (size.txFifoQueue &&& 0x3f) <<< 24 ||| (size.txBuf &&& 0x3f) <<< 16 |||
              (part.tbsa &&& canfdAddrMsk) else s.regs.txbc },
        memsetZero s.ram (((size.txFifoQueue &&& 0x3f) <<< 24 ||| (size.txBuf &&& 0x3f) <<< 16 |||
          (part.tbsa &&& canfdAddrMsk)) &&& canfdAddrMsk).toNat (canfdClearBytes size.txBuf)⟩ := by
  by_cases some : size.txBuf ≠ 0 ∨ size.txFifoQueue ≠ 0
  · rw [if_pos some, if_pos some]
    unfold initTxDBuf
    rw [limited]
    rfl
  · have none : canfdClearBytes size.txBuf = 0 := by
      rw [not_not.mp fun other => some (.inl other)]
      rfl
    rw [if_neg some, if_neg some, none, memsetZero_none]

theorem rxDBuf_stage : (if size.rxBuf ≠ 0 then s.initRxDBuf part size else s) =
    ⟨{ s.regs with
        rxbc := if size.rxBuf ≠ 0 then part.rbsa &&& canfdAddrMsk else s.regs.rxbc },
      memsetZero s.ram s.regs.part.rbsa (canfdClearBytes size.rxBuf)⟩ := by
  by_cases some : size.rxBuf ≠ 0
  · rw [if_pos some, if_pos some]
    rfl
  · have none : canfdClearBytes size.rxBuf = 0 := by rw [not_not.mp some]; rfl
    rw [if_neg some, if_neg some, none, memsetZero_none]

def FifoUsed (size : CanfdElemSizeT) (n : U32) : Prop :=
  n ≠ 0 ∧ ¬(canfdMaxRxFifoElems < size.rxFifo0.toNat ∨ canfdMaxRxFifoElems < size.rxFifo1.toNat)

instance (size : CanfdElemSizeT) (n : U32) : Decidable (FifoUsed size n) :=
  inferInstanceAs (Decidable (_ ∧ _))

theorem rxFifo0_stage : (if size.rxFifo0 ≠ 0 then s.initRxFifo0 part size else s) =
    ⟨{ s.regs with
        rxf0c := if FifoUsed size size.rxFifo0 then part.f0sa ||| size.rxFifo0 <<< 16
          else s.regs.rxf0c },
      memsetZero s.ram ((part.f0sa ||| size.rxFifo0 <<< 16) &&& canfdAddrMsk).toNat
        (if FifoUsed size size.rxFifo0 then canfdClearBytes size.rxFifo0 else 0)⟩ := by
  by_cases used : FifoUsed size size.rxFifo0
  · rw [if_pos used.1, initRxFifo0, if_neg used.2, if_pos used, if_pos used]
    rfl
  · have skipped : (if size.rxFifo0 ≠ 0 then s.initRxFifo0 part size else s) = s := by
      unfold initRxFifo0
      split_ifs with some many
      · rfl
      · exact absurd ⟨some, many⟩ used
      · rfl
    rw [skipped, if_neg used, if_neg used, memsetZero_none]

theorem rxFifo1_stage : (if size.rxFifo1 ≠ 0 then s.initRxFifo1 part size else s) =
    ⟨{ s.regs with
        rxf1c := if FifoUsed size size.rxFifo1 then part.f1sa ||| size.rxFifo1 <<< 16
          else s.regs.rxf1c },
      memsetZero s.ram ((part.f1sa ||| size.rxFifo1 <<< 16) &&& canfdAddrMsk).toNat
        (if FifoUsed size size.rxFifo1 then canfdClearBytes size.rxFifo1 else 0)⟩ := by
  by_cases used : FifoUsed size size.rxFifo1
  · rw [if_pos used.1, initRxFifo1, if_neg used.2, if_pos used, if_pos used]
    rfl
  · have skipped : (if size.rxFifo1 ≠ 0 then s.initRxFifo1 part size else s) = s := by
      unfold initRxFifo1
      split_ifs with some many
      · rfl
      · exact absurd ⟨some, many⟩ used
      · rfl
    rw [skipped, if_neg used, if_neg used, memsetZero_none]

theorem txEvntFifo_stage : (if size.txEventFifo ≠ 0 then s.initTxEvntFifo part size else s) =
    ⟨{ s.regs with
        txefc := if size.txEventFifo ≠ 0 then
          size.txEventFifo <<< 16 ||| (part.efsa &&& canfdAddrMsk) else s.regs.txefc }, s.ram⟩ := by
  by_cases some : size.txEventFifo ≠ 0
  · rw [if_pos some, if_pos some]
    rfl
  · rw [if_neg some, if_neg some]

end CanfdSetup

section Words

def AlignedStart (a : U32) : Prop := a.toNat % 4 = 0 ∧ a.toNat < 2 ^ 16

variable {a x n m : U32}

theorem canfdAddrMsk_bit {i : Nat} : canfdAddrMsk.getLsbD i = decide (2 ≤ i ∧ i < 16) := by
  by_cases low : i < 16
  · have all : ∀ i < 16, canfdAddrMsk.getLsbD i = decide (2 ≤ i ∧ i < 16) := by decide
    exact all i low
  · have none : canfdAddrMsk.getLsbD i = false :=
      Nat.testBit_lt_two_pow (Nat.lt_of_lt_of_le (show canfdAddrMsk.toNat < 2 ^ 16 by decide)
        (Nat.pow_le_pow_right (by omega) (by omega)))
    rw [none]
    simp [low]

theorem AlignedStart.masked (aligned : AlignedStart a) : a &&& canfdAddrMsk = a := by
  apply BitVec.eq_of_getLsbD_eq
  intro i _
  rw [BitVec.getLsbD_and, canfdAddrMsk_bit]
  by_cases inside : 2 ≤ i ∧ i < 16
  · simp [inside]
  · have none : a.getLsbD i = false := by
      by_cases high : 16 ≤ i
      · exact Nat.testBit_lt_two_pow (Nat.lt_of_lt_of_le aligned.2
          (Nat.pow_le_pow_right (by omega) high))
      · have multiple := aligned.1
        obtain rfl | rfl : i = 0 ∨ i = 1 := by omega
        · rw [BitVec.getLsbD, Nat.testBit_zero]
          simp
          omega
        · rw [BitVec.getLsbD, Nat.testBit_succ, Nat.testBit_zero]
          simp
          omega
    rw [none, Bool.false_and]

theorem shifted_masked (k : Nat) (high : 16 ≤ k) : n <<< k &&& canfdAddrMsk = 0 := by
  apply BitVec.eq_of_getLsbD_eq
  intro i bound
  rw [BitVec.getLsbD_and, canfdAddrMsk_bit, BitVec.getLsbD_shiftLeft]
  by_cases low : i < 16
  · simp [show i < k by omega]
  · simp [low]

theorem packed_masked (aligned : AlignedStart a) (none : x &&& canfdAddrMsk = 0) :
    (x ||| a) &&& canfdAddrMsk = a := by
  rw [BitVec.and_or_distrib_right, none, aligned.masked]
  exact BitVec.zero_or

theorem packed_count_le (small : a.toNat < 2 ^ 16) :
    ((a ||| n <<< 16) >>> 16 &&& m).toNat ≤ n.toNat := by
  rw [BitVec.toNat_and, BitVec.toNat_ushiftRight, BitVec.toNat_or, BitVec.toNat_shiftLeft]
  refine Nat.and_le_left.trans ?_
  rw [Nat.shiftRight_or_distrib, Nat.shiftRight_eq_div_pow, Nat.div_eq_of_lt small, Nat.zero_or,
    Nat.shiftRight_eq_div_pow, Nat.shiftLeft_eq]
  omega

end Words

section Open

variable {part : CanfdRamPartT} {size : CanfdElemSizeT}

/-- What `CANFD_Open` leaves: each part's register, and the memory with six stretches cleared, of
which those for the filters and the Rx buffers start at 0. -/
theorem canfdOpen_eq (limited : size.limitTx = size) (ram : Mem) :
    canfdOpen part size ram =
      ⟨{ sidfc := if size.sidfc ≠ 0 then
          (size.sidfc &&& 0xff) <<< 16 ||| (part.flssa &&& canfdAddrMsk) else 0
         xidfc := if size.xidfc ≠ 0 then
          (size.xidfc &&& 0xff) <<< 16 ||| (part.flesa &&& canfdAddrMsk) else 0
         rxf0c := if CanfdSetup.FifoUsed size size.rxFifo0 then
          part.f0sa ||| size.rxFifo0 <<< 16 else 0
         rxf1c := if CanfdSetup.FifoUsed size size.rxFifo1 then
          part.f1sa ||| size.rxFifo1 <<< 16 else 0
         rxbc := if size.rxBuf ≠ 0 then part.rbsa &&& canfdAddrMsk else 0
         txefc := if size.txEventFifo ≠ 0 then
          size.txEventFifo <<< 16 ||| (part.efsa &&& canfdAddrMsk) else 0
         txbc := if size.txBuf ≠ 0 ∨ size.txFifoQueue ≠ 0 then
          (size.txFifoQueue &&& 0x3f) <<< 24 ||| (size.txBuf &&& 0x3f) <<< 16 |||
            (part.tbsa &&& canfdAddrMsk) else 0 },
        memsetZero (memsetZero (memsetZero (memsetZero (memsetZero
          (memsetZero ram 0 (size.sidfc * 4).toNat) 0 (size.xidfc * 8).toNat)
          (((size.txFifoQueue &&& 0x3f) <<< 24 ||| (size.txBuf &&& 0x3f) <<< 16 |||
            (part.tbsa &&& canfdAddrMsk)) &&& canfdAddrMsk).toNat (canfdClearBytes size.txBuf))
          0 (canfdClearBytes size.rxBuf))
          ((part.f0sa ||| size.rxFifo0 <<< 16) &&& canfdAddrMsk).toNat
            (if CanfdSetup.FifoUsed size size.rxFifo0 then canfdClearBytes size.rxFifo0 else 0))
          ((part.f1sa ||| size.rxFifo1 <<< 16) &&& canfdAddrMsk).toNat
            (if CanfdSetup.FifoUsed size size.rxFifo1 then canfdClearBytes size.rxFifo1 else 0)⟩ := by
  have reset : ((0 : U32) &&& canfdAddrMsk).toNat = 0 := rfl
  unfold canfdOpen
  simp only [CanfdSetup.sidfc_stage, CanfdSetup.xidfc_stage, CanfdSetup.txDBuf_stage _ limited,
    limited, ite_self, CanfdSetup.rxDBuf_stage, CanfdSetup.rxFifo0_stage,
    CanfdSetup.rxFifo1_stage, CanfdSetup.txEvntFifo_stage, CanfdRegs.part, reset]

end Open

end NuMakerMA35
