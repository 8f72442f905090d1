import NuMakerMA35.BitUtil

namespace NuMakerMA35

structure Dsct where
  ctl : U32
  sa : U32
  da : U32
  next : U32
  deriving DecidableEq, Repr

def pdmaOpBasic : U32 := 0x1
def pdmaOpScatter : U32 := 0x2
def pdmaDsctCtlOpmodeMsk : U32 := 0x3
def pdmaDsctCtlTbintdisMsk : U32 := 0x80
def pdmaDsctCtlSaincMsk : U32 := 0x300
def pdmaDsctCtlDaincMsk : U32 := 0xc00
def pdmaDsctCtlTxwidthPos : Nat := 12
def pdmaDsctCtlTxwidthMsk : U32 := 0x3000
def pdmaDsctCtlTxcntPos : Nat := 16
def pdmaDsctCtlTxcntMsk : U32 := 0xffff0000
def pdmaWidth8 : U32 := 0x0
def pdmaWidth16 : U32 := 0x1000
def pdmaWidth32 : U32 := 0x2000
def pdmaSarInc : U32 := 0x0
def pdmaSarFix : U32 := 0x300
def pdmaDarInc : U32 := 0x0
def pdmaDarFix : U32 := 0xc00
def pdmaReqSingle : U32 := 0x4
def pdmaReqBurst : U32 := 0x0
def pdmaBurst32 : U32 := 0x20

def nuPdmaMaxTxcnt : Nat := 65536

inductive MemCtrl where
  | srcFixDstFix
  | srcFixDstInc
  | srcIncDstFix
  | srcIncDstInc
  | undefined
  deriving DecidableEq, Repr

def MemCtrl.code : MemCtrl → U32
  | .srcFixDstFix => 0
  | .srcFixDstInc => 1
  | .srcIncDstFix => 2
  | .srcIncDstInc => 3
  | .undefined => 0xffffffff

def MemCtrl.srcInc (m : MemCtrl) : Bool := m.code &&& 0x2 ≠ 0

def MemCtrl.dstInc (m : MemCtrl) : Bool := m.code &&& 0x1 ≠ 0

/-- The source and destination control bits; the undefined mode leaves both zero. -/
def nuPdmaChannelMemctrlFill : MemCtrl → U32 × U32
  | .srcFixDstFix => (pdmaSarFix, pdmaDarFix)
  | .srcFixDstInc => (pdmaSarFix, pdmaDarInc)
  | .srcIncDstFix => (pdmaSarInc, pdmaDarFix)
  | .srcIncDstInc => (pdmaSarInc, pdmaDarInc)
  | .undefined => (0, 0)

def txWidthCode (dataWidth : U32) : U32 :=
  if dataWidth = 8 then pdmaWidth8 else if dataWidth = 16 then pdmaWidth16 else pdmaWidth32

def txReqCode (isMem : Bool) : U32 :=
  if isMem then pdmaReqBurst ||| pdmaBurst32 else pdmaReqSingle

/-- The control word `nu_pdma_desc_setup` builds, in the order of its assignments. -/
def descCtl (memCtl : MemCtrl) (isMem : Bool) (dataWidth transferCnt next : U32)
    (beSilent : Bool) : U32 :=
  let fill := nuPdmaChannelMemctrlFill memCtl
  let ctl := ((transferCnt - 1) <<< pdmaDsctCtlTxcntPos) ||| txWidthCode dataWidth |||
    fill.1 ||| fill.2 ||| pdmaOpBasic
  let ctl := ctl ||| txReqCode isMem
  let ctl := if next ≠ 0 then (ctl &&& ~~~pdmaDsctCtlOpmodeMsk) ||| pdmaOpScatter else ctl
  if beSilent then ctl ||| pdmaDsctCtlTbintdisMsk else ctl

def descOf (memCtl : MemCtrl) (isMem : Bool) (dataWidth src dst transferCnt next : U32)
    (beSilent : Bool) : Dsct :=
  ⟨descCtl memCtl isMem dataWidth transferCnt next beSilent, src, dst, next⟩

def Dsct.units (d : Dsct) : Nat :=
  ((d.ctl &&& pdmaDsctCtlTxcntMsk) >>> pdmaDsctCtlTxcntPos).toNat + 1

def Dsct.opMode (d : Dsct) : U32 := d.ctl &&& pdmaDsctCtlOpmodeMsk

def Dsct.raisesInterrupt (d : Dsct) : Bool := d.ctl &&& pdmaDsctCtlTbintdisMsk = 0

def Dsct.unitBytes (d : Dsct) : Nat :=
  1 <<< ((d.ctl &&& pdmaDsctCtlTxwidthMsk) >>> pdmaDsctCtlTxwidthPos).toNat

def Dsct.srcFixed (d : Dsct) : Bool := d.ctl &&& pdmaDsctCtlSaincMsk = pdmaSarFix

def Dsct.dstFixed (d : Dsct) : Bool := d.ctl &&& pdmaDsctCtlDaincMsk = pdmaDarFix

theorem low_word_bit {c : U32} (hc : c >>> 16 = 0) {i : Nat} (hi : 16 ≤ i) :
    c.getLsbD i = false := by
  have bit := congrArg (fun v => BitVec.getLsbD v (i - 16)) hc
  simpa [show 16 + (i - 16) = i by omega] using bit

theorem shifted_or_low_shift (x : U32) {c : U32} (hc : c >>> 16 = 0) :
    ((x <<< 16 ||| c) &&& 0xffff0000#32) >>> 16 = x &&& 0xffff#32 := by
  have mask : 0xffff0000#32 = (0xffff#32) <<< 16 := by decide
  apply BitVec.eq_of_getLsbD_eq
  intro i hi
  rw [mask]
  simp only [BitVec.getLsbD_ushiftRight, BitVec.getLsbD_and, BitVec.getLsbD_or,
    BitVec.getLsbD_shiftLeft, low_word_bit hc (show 16 ≤ 16 + i by omega),
    show 16 + i - 16 = i by omega, show ¬16 + i < 16 by omega]
  by_cases small : 16 + i < 32
  · simp [small]
  · have zero : (0xffff#32).getLsbD i = false := low_word_bit (by decide) (by omega)
    simp [small, zero]

theorem shifted_or_low_mask (x c : U32) {m : U32} (hm : m >>> 16 = 0) :
    (x <<< 16 ||| c) &&& m = c &&& m := by
  apply BitVec.eq_of_getLsbD_eq
  intro i hi
  simp only [BitVec.getLsbD_and, BitVec.getLsbD_or, BitVec.getLsbD_shiftLeft]
  by_cases small : i < 16
  · simp [small]
  · simp [low_word_bit hm (show 16 ≤ i by omega)]

def descLow (memCtl : MemCtrl) (isMem : Bool) (dataWidth : U32) (linked beSilent : Bool) : U32 :=
  let fill := nuPdmaChannelMemctrlFill memCtl
  txWidthCode dataWidth ||| fill.1 ||| fill.2 ||| txReqCode isMem |||
    (if linked then pdmaOpScatter else pdmaOpBasic) |||
    (if beSilent then pdmaDsctCtlTbintdisMsk else 0)

theorem descLow_high_zero (memCtl : MemCtrl) (isMem : Bool) (dataWidth : U32)
    (linked beSilent : Bool) : descLow memCtl isMem dataWidth linked beSilent >>> 16 = 0 := by
  unfold descLow txWidthCode
  split_ifs <;> cases memCtl <;> cases isMem <;> decide

theorem shifted_and_not_opmode (x c : U32) :
    (x <<< 16 ||| c) &&& ~~~pdmaDsctCtlOpmodeMsk = x <<< 16 ||| (c &&& ~~~pdmaDsctCtlOpmodeMsk) := by
  apply BitVec.eq_of_getLsbD_eq
  intro i hi
  simp only [BitVec.getLsbD_and, BitVec.getLsbD_or, BitVec.getLsbD_shiftLeft]
  by_cases small : i < 16
  · simp [small]
  · have clear : pdmaDsctCtlOpmodeMsk.getLsbD i = false := low_word_bit (by decide) (by omega)
    rw [BitVec.getLsbD_not, clear]
    simp [hi]

theorem txWidthCode_cases (dataWidth : U32) : txWidthCode dataWidth = pdmaWidth8 ∨
    txWidthCode dataWidth = pdmaWidth16 ∨ txWidthCode dataWidth = pdmaWidth32 := by
  unfold txWidthCode
  split_ifs <;> simp

theorem descCtl_eq_shifted (memCtl : MemCtrl) (isMem : Bool) (dataWidth transferCnt next : U32)
    (beSilent : Bool) :
    descCtl memCtl isMem dataWidth transferCnt next beSilent =
      (transferCnt - 1) <<< 16 ||| descLow memCtl isMem dataWidth (next ≠ 0) beSilent := by
  unfold descCtl descLow pdmaDsctCtlTxcntPos
  by_cases linked : next = 0
  all_goals
    simp only [linked, ne_eq, not_true_eq_false, not_false_eq_true, if_true, if_false,
      decide_true, decide_false, Bool.false_eq_true, BitVec.or_assoc, shifted_and_not_opmode]
    rcases txWidthCode_cases dataWidth with h | h | h
    all_goals
      rw [h]
      cases beSilent <;> simp only [Bool.false_eq_true, if_true, if_false] <;>
        congr 1 <;> cases memCtl <;> cases isMem <;> decide

theorem descOf_units (memCtl : MemCtrl) (isMem : Bool) (dataWidth src dst transferCnt next : U32)
    (beSilent : Bool) :
    (descOf memCtl isMem dataWidth src dst transferCnt next beSilent).units =
      ((transferCnt - 1) &&& 0xffff).toNat + 1 := by
  simp only [Dsct.units, descOf, descCtl_eq_shifted]
  rw [show pdmaDsctCtlTxcntMsk = 0xffff0000#32 from rfl, show pdmaDsctCtlTxcntPos = 16 from rfl,
    shifted_or_low_shift _ (descLow_high_zero ..)]
  rfl

theorem descOf_units_of_count {memCtl : MemCtrl} {isMem : Bool} {dataWidth src dst next : U32}
    {beSilent : Bool} {cnt : Nat} (h : cnt ≤ nuPdmaMaxTxcnt) :
    (descOf memCtl isMem dataWidth src dst (BitVec.ofNat 32 cnt) next beSilent).units =
      if cnt = 0 then nuPdmaMaxTxcnt else cnt := by
  rw [descOf_units]
  unfold nuPdmaMaxTxcnt at *
  by_cases zero : cnt = 0
  · subst zero
    decide
  · have minus : BitVec.ofNat 32 cnt - 1 = BitVec.ofNat 32 (cnt - 1) := by
      apply BitVec.eq_of_toNat_eq
      rw [BitVec.toNat_sub, show BitVec.toNat (1 : U32) = 1 from rfl]
      simp only [BitVec.toNat_ofNat]
      omega
    have mask : BitVec.toNat (0xffff : U32) = 2 ^ 16 - 1 := by decide
    rw [if_neg zero, minus, BitVec.toNat_and, mask, Nat.and_two_pow_sub_one_eq_mod,
      BitVec.toNat_ofNat]
    omega

theorem descLow_opmode (memCtl : MemCtrl) (isMem : Bool) (dataWidth : U32) (linked beSilent : Bool) :
    descLow memCtl isMem dataWidth linked beSilent &&& pdmaDsctCtlOpmodeMsk =
      if linked then pdmaOpScatter else pdmaOpBasic := by
  unfold descLow
  rcases txWidthCode_cases dataWidth with h | h | h
  all_goals
    rw [h]
    cases memCtl <;> cases isMem <;> cases linked <;> cases beSilent <;> decide

theorem descLow_tbintdis (memCtl : MemCtrl) (isMem : Bool) (dataWidth : U32)
    (linked beSilent : Bool) :
    descLow memCtl isMem dataWidth linked beSilent &&& pdmaDsctCtlTbintdisMsk =
      if beSilent then pdmaDsctCtlTbintdisMsk else 0 := by
  unfold descLow
  rcases txWidthCode_cases dataWidth with h | h | h
  all_goals
    rw [h]
    cases memCtl <;> cases isMem <;> cases linked <;> cases beSilent <;> decide

theorem descOf_opMode (memCtl : MemCtrl) (isMem : Bool) (dataWidth src dst transferCnt next : U32)
    (beSilent : Bool) :
    (descOf memCtl isMem dataWidth src dst transferCnt next beSilent).opMode =
      if next = 0 then pdmaOpBasic else pdmaOpScatter := by
  simp only [Dsct.opMode, descOf, descCtl_eq_shifted]
  rw [shifted_or_low_mask _ _ (by decide), descLow_opmode]
  by_cases linked : next = 0 <;> simp [linked]

theorem descOf_raisesInterrupt (memCtl : MemCtrl) (isMem : Bool)
    (dataWidth src dst transferCnt next : U32) (beSilent : Bool) :
    (descOf memCtl isMem dataWidth src dst transferCnt next beSilent).raisesInterrupt = !beSilent := by
  simp only [Dsct.raisesInterrupt, descOf, descCtl_eq_shifted]
  rw [shifted_or_low_mask _ _ (by decide), descLow_tbintdis]
  cases beSilent <;> decide

theorem descLow_field (memCtl : MemCtrl) (isMem : Bool) (dataWidth : U32) (linked beSilent : Bool) :
    descLow memCtl isMem dataWidth linked beSilent &&& pdmaDsctCtlTxwidthMsk =
        txWidthCode dataWidth ∧
      descLow memCtl isMem dataWidth linked beSilent &&& pdmaDsctCtlSaincMsk =
        (nuPdmaChannelMemctrlFill memCtl).1 ∧
      descLow memCtl isMem dataWidth linked beSilent &&& pdmaDsctCtlDaincMsk =
        (nuPdmaChannelMemctrlFill memCtl).2 := by
  unfold descLow
  rcases txWidthCode_cases dataWidth with h | h | h
  all_goals
    rw [h]
    cases memCtl <;> cases isMem <;> cases linked <;> cases beSilent <;> decide

theorem descOf_unitBytes (memCtl : MemCtrl) (isMem : Bool)
    {dataWidth : U32} (src dst transferCnt next : U32) (beSilent : Bool)
    (h : dataWidth = 8 ∨ dataWidth = 16 ∨ dataWidth = 32) :
    (descOf memCtl isMem dataWidth src dst transferCnt next beSilent).unitBytes =
      dataWidth.toNat / 8 := by
  simp only [Dsct.unitBytes, descOf, descCtl_eq_shifted]
  rw [shifted_or_low_mask _ _ (by decide), (descLow_field ..).1]
  rcases h with h | h | h <;> subst h <;> decide

theorem descOf_srcFixed (memCtl : MemCtrl) (isMem : Bool) (dataWidth src dst transferCnt next : U32)
    (beSilent : Bool) :
    (descOf memCtl isMem dataWidth src dst transferCnt next beSilent).srcFixed = !memCtl.srcInc := by
  simp only [Dsct.srcFixed, descOf, descCtl_eq_shifted]
  rw [shifted_or_low_mask _ _ (by decide), (descLow_field ..).2.1]
  cases memCtl <;> decide

theorem descOf_dstFixed (memCtl : MemCtrl) (isMem : Bool) (dataWidth src dst transferCnt next : U32)
    (beSilent : Bool) :
    (descOf memCtl isMem dataWidth src dst transferCnt next beSilent).dstFixed = !memCtl.dstInc := by
  simp only [Dsct.dstFixed, descOf, descCtl_eq_shifted]
  rw [shifted_or_low_mask _ _ (by decide), (descLow_field ..).2.2]
  cases memCtl <;> decide

end NuMakerMA35
