import NuMakerMA35.UartRx
import NuMakerMA35.Words

namespace NuMakerMA35

open Words

structure DmaDesc where
  status : U32
  length : U32
  buffer1 : U32

def descOwnByDma : U32 := 0x80000000
def descFrameLengthMask : U32 := 0x3FFF0000
def descFrameLengthShift : Nat := 16
def descError : U32 := 0x00008000
def descRxFirst : U32 := 0x00000200
def descRxLast : U32 := 0x00000100
def descTxIntEnable : U32 := 0x40000000
def descTxLast : U32 := 0x20000000
def descTxFirst : U32 := 0x10000000
def descTxCisMask : U32 := 0x00c00000
def descTxCisIpv4HdrCs : U32 := 0x00400000
def descTxCisTcpOnlyCs : U32 := 0x00800000
def descTxCisTcpPseudoCs : U32 := 0x00c00000
def txDescEndOfRing : U32 := 0x00200000
def rxDisIntCompl : U32 := 0x80000000
def rxDescEndOfRing : U32 := 0x00008000
def descSize2Mask : U32 := 0x1FFF0000
def descSize1Mask : U32 := 0x00001FFF

def transmitDescSize : Nat := 32
def receiveDescSize : Nat := 32
def moduloInterrupt : Nat := 1
def ethernetCrc : U32 := 4

/-- `PKT_FRAME_BUF_SIZE`: header, VLAN tag, payload and CRC rounded up to cache lines. -/
def pktFrameBufSize : Nat := 1536

def synopGMACIsDescOwnedByDma (desc : DmaDesc) : Prop :=
  desc.status &&& descOwnByDma = descOwnByDma

def synopGMACIsDescEmpty (desc : DmaDesc) : Prop :=
  desc.length &&& descSize1Mask = 0 ∧ desc.length &&& descSize2Mask = 0

def synopGMACIsLastRxDesc (desc : DmaDesc) : Prop :=
  desc.length &&& rxDescEndOfRing = rxDescEndOfRing

def synopGMACIsLastTxDesc (desc : DmaDesc) : Prop :=
  desc.status &&& txDescEndOfRing = txDescEndOfRing

def synopGMACIsRxDescValid (status : U32) : Prop :=
  status &&& descError = 0 ∧ status &&& descRxFirst = descRxFirst ∧
    status &&& descRxLast = descRxLast

instance : DecidablePred synopGMACIsDescOwnedByDma := fun _ => inferInstanceAs (Decidable (_ = _))
instance : DecidablePred synopGMACIsDescEmpty := fun _ => inferInstanceAs (Decidable (_ ∧ _))
instance : DecidablePred synopGMACIsLastRxDesc := fun _ => inferInstanceAs (Decidable (_ = _))
instance : DecidablePred synopGMACIsLastTxDesc := fun _ => inferInstanceAs (Decidable (_ = _))
instance : DecidablePred synopGMACIsRxDescValid := fun _ => inferInstanceAs (Decidable (_ ∧ _ ∧ _))

def synopGMACGetRxDescFrameLength (status : U32) : U32 :=
  (status &&& descFrameLengthMask) >>> descFrameLengthShift

def synopGMACRxDescInitRing (lastRingDesc : Bool) : DmaDesc :=
  ⟨0, if lastRingDesc then rxDescEndOfRing else 0, 0⟩

def synopGMACTxDescInitRing (lastRingDesc : Bool) : DmaDesc :=
  ⟨if lastRingDesc then txDescEndOfRing else 0, 0, 0⟩

structure FrameArea where
  base : Nat
  inSpace : base + 32 * pktFrameBufSize ≤ 2 ^ 32

namespace FrameArea

theorem upperSpace_fits : 0x80000000 + 32 * pktFrameBufSize ≤ 2 ^ 32 := by decide

variable (frames : FrameArea)

def addr (i : Nat) : Nat := frames.base + i * pktFrameBufSize

def ptr (i : Nat) : U32 := BitVec.ofNat 32 (frames.addr i)

theorem ptr_toNat {i : Nat} (hi : i < 32) : (frames.ptr i).toNat = frames.addr i := by
  have space := frames.inSpace
  unfold ptr
  rw [BitVec.toNat_ofNat, Nat.mod_eq_of_lt]
  unfold addr pktFrameBufSize at *
  omega

theorem addr_apart {i j : Nat} (h : i < j) : frames.addr i + pktFrameBufSize ≤ frames.addr j := by
  unfold addr pktFrameBufSize
  omega

theorem ptr_injective {i j : Nat} (hi : i < 32) (hj : j < 32)
    (h : frames.ptr i = frames.ptr j) : i = j := by
  have same := congrArg BitVec.toNat h
  rw [frames.ptr_toNat hi, frames.ptr_toNat hj] at same
  unfold addr pktFrameBufSize at same
  omega

end FrameArea

end NuMakerMA35
