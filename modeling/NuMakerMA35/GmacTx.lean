import NuMakerMA35.Gmac

namespace NuMakerMA35

open Words

structure TxDone where
  index : Nat
  status : U32

/-- A frame copied to the buffer of an index; `free` tells whether no queued descriptor had it. -/
structure TxWrite where
  index : Nat
  len : Nat
  free : Bool

/-- The transmit side of `synopGMACdevice` with its descriptors and buffers. Descriptor pointers
are positions in `descs`; `accepted` holds the frames `nu_gmac_tx` took, `sent` those the DMA read,
`writes` the copies made. -/
structure GmacTx where
  frames : FrameArea
  descs : Nat → DmaDesc
  txNext : Nat
  txBusy : Nat
  txNextDesc : Nat
  txBusyDesc : Nat
  busyTxDesc : U32
  mem : Mem
  accepted : List (List Byte)
  sent : List (List Byte)
  writes : List TxWrite

/-- What the DMA does while `nu_gmac_tx` runs: after each refused try, and before each look of the
reclaim at a descriptor. -/
structure TxProgress where
  waits : Nat → List TxDone
  looks : Nat → List TxDone

def descTxTSEnable : U32 := 0x02000000
def dmaIntErrorMask : U32 := 0x00002000
def dmaIntTxStoppedMask : U32 := 0x00000002
def defaultLoopVariable : Nat := 1000

def txStatusMask : U32 := 0x0003FFFF

def synopGMACTxChecksumOffload (cis status : U32) : U32 := status &&& ~~~descTxCisMask ||| cis

def synopGMACTxChecksumOffloadBypass (status : U32) : U32 := status &&& ~~~descTxCisMask

namespace GmacTx

def frameOf (mem : Mem) (desc : DmaDesc) : List Byte :=
  slice mem desc.buffer1.toNat (desc.length &&& descSize1Mask).toNat

/-- The DMA sends the frame of a descriptor it owns and gives the descriptor back. -/
def transmitDone (s : GmacTx) (done : TxDone) : GmacTx :=
  let txdesc := s.descs done.index
  if done.index < transmitDescSize ∧ synopGMACIsDescOwnedByDma txdesc then
    { s with
      descs := Function.update s.descs done.index { txdesc with
        status := txdesc.status &&& ~~~(descOwnByDma ||| txStatusMask) |||
          (done.status &&& txStatusMask) }
      sent := s.sent ++ [frameOf s.mem txdesc] }
  else s

def synopGMACSetTxQptr (s : GmacTx) (buffer1 length1 offloadNeeded ts : U32) : Int × GmacTx :=
  let txdesc := s.descs s.txNextDesc
  if ¬synopGMACIsDescEmpty txdesc then (-1, s)
  else
    let length := txdesc.length ||| (length1 &&& descSize1Mask)
    let status := txdesc.status ||| (descTxFirst ||| descTxLast ||| descTxIntEnable |||
      (if ts = 1 then descTxTSEnable else 0))
    let status := if offloadNeeded ≠ 0 then
        synopGMACTxChecksumOffload descTxCisTcpPseudoCs
          (synopGMACTxChecksumOffload descTxCisTcpOnlyCs
            (synopGMACTxChecksumOffload descTxCisIpv4HdrCs status))
      else synopGMACTxChecksumOffloadBypass status
    let txdesc : DmaDesc := ⟨status ||| descOwnByDma, length, buffer1⟩
    let last := synopGMACIsLastTxDesc txdesc
    (s.txNext, { s with
      descs := Function.update s.descs s.txNextDesc txdesc
      txNext := if last then 0 else s.txNext + 1
      txNextDesc := if last then 0 else s.txNextDesc + 1
      busyTxDesc := s.busyTxDesc + 1 })

/-- The index of the descriptor taken back, `-1` where there is none. -/
def synopGMACGetTxQptr (s : GmacTx) : Int × GmacTx :=
  let txdesc := s.descs s.txBusyDesc
  if synopGMACIsDescOwnedByDma txdesc then (-1, s)
  else if synopGMACIsDescEmpty txdesc then (-1, s)
  else
    let last := synopGMACIsLastTxDesc txdesc
    (s.txBusy, { s with
      txBusy := if last then 0 else s.txBusy + 1
      txBusyDesc := if last then 0 else s.txBusyDesc + 1
      descs := Function.update s.descs s.txBusyDesc (synopGMACTxDescInitRing last)
      busyTxDesc := s.busyTxDesc - 1 })

def xmitTries (pktData pktLen offloadNeeded ts : U32) (waits : Nat → List TxDone) :
    Nat → Nat → GmacTx → Int × GmacTx
  | 0, _, s => (-1, s)
  | n + 1, count, s =>
    match s.synopGMACSetTxQptr pktData pktLen offloadNeeded ts with
    | (status, s) =>
      if status < 0 then
        xmitTries pktData pktLen offloadNeeded ts waits n (count + 1)
          ((waits count).foldl transmitDone s)
      else (0, s)

def synopGMACXmitFrames (s : GmacTx) (pktData pktLen offloadNeeded ts : U32)
    (waits : Nat → List TxDone) : Int × GmacTx :=
  xmitTries pktData pktLen offloadNeeded ts waits defaultLoopVariable 0 s

def transmitOver (looks : Nat → List TxDone) : Nat → Nat → GmacTx → GmacTx
  | 0, _, s => s
  | n + 1, k, s =>
    match ((looks k).foldl transmitDone s).synopGMACGetTxQptr with
    | (descIndex, s) => if 0 ≤ descIndex then transmitOver looks n (k + 1) s else s

/-- One look more than there are descriptors always ends the loop. -/
def synopHandleTransmitOver (s : GmacTx) (looks : Nat → List TxDone) : GmacTx :=
  transmitOver looks (transmitDescSize + 1) 0 s

def copyPbufs (pktData : Nat) : List (List Byte) → Mem → Nat → Mem × Nat
  | [], mem, offset => (mem, offset)
  | q :: p, mem, offset =>
    copyPbufs pktData p (blit mem (pktData + offset) q) ((offset + q.length) % 2 ^ 32)

def Queued (desc : DmaDesc) : Prop := synopGMACIsDescOwnedByDma desc ∨ ¬synopGMACIsDescEmpty desc

instance : DecidablePred Queued := fun _ => inferInstanceAs (Decidable (_ ∨ _))

def BufferFree (s : GmacTx) (index : Nat) : Prop :=
  ∀ i, i < transmitDescSize → Queued (s.descs i) → (s.descs i).buffer1 ≠ s.frames.ptr index

instance (s : GmacTx) (index : Nat) : Decidable (s.BufferFree index) :=
  inferInstanceAs (Decidable (∀ i, i < transmitDescSize → _))

/-- `nu_gmac_tx` of a chain of segments; checksums are left to the hardware. -/
def nuGmacTx (s : GmacTx) (p : List (List Byte)) (o : TxProgress) : Int × GmacTx :=
  let index := s.txNext
  match copyPbufs (s.frames.addr index) p s.mem 0 with
  | (mem, offset) =>
    let write : TxWrite := ⟨index, p.flatten.length, s.BufferFree index⟩
    match { s with mem := mem, writes := s.writes ++ [write] }.synopGMACXmitFrames
        (s.frames.ptr index) (BitVec.ofNat 32 offset) 1 0 o.waits with
    | (status, s) =>
      if status ≠ 0 then (-rtError, s)
      else
        (rtEok, { s with accepted := s.accepted ++ [p.flatten] }.synopHandleTransmitOver o.looks)

def synopGMACTakeDescOwnershipTx (s : GmacTx) : GmacTx :=
  { s with descs := fun i => { s.descs i with status := (s.descs i).status &&& ~~~descOwnByDma } }

/-- The transmit part of `synopGMAC_init_tx_rx_desc_queue`: the descriptor pointers stay. -/
def synopGMACInitTxDescQueue (s : GmacTx) : GmacTx :=
  { s with
    descs := fun i => synopGMACTxDescInitRing (i = transmitDescSize - 1)
    txNext := 0
    txBusy := 0 }

/-- What `nu_gmac_isr` does to the transmit side for a value of the DMA status register. -/
def nuGmacIsr (s : GmacTx) (dmaStatus : U32) : GmacTx :=
  let s := if dmaStatus &&& dmaIntErrorMask ≠ 0 then
    s.synopGMACTakeDescOwnershipTx.synopGMACInitTxDescQueue else s
  if dmaStatus &&& dmaIntTxStoppedMask ≠ 0 then s.synopGMACTakeDescOwnershipTx else s

def synopGMACSetupTxDescQueue (frames : FrameArea) (mem : Mem) : GmacTx where
  frames := frames
  descs i := synopGMACTxDescInitRing (i = transmitDescSize - 1)
  txNext := 0
  txBusy := 0
  txNextDesc := 0
  txBusyDesc := 0
  busyTxDesc := 0
  mem := mem
  accepted := []
  sent := []
  writes := []

end GmacTx

inductive TxEvent
  | tx (p : List (List Byte)) (o : TxProgress)
  | done (d : TxDone)
  | interrupt (dmaStatus : U32)

def GmacTx.step (s : GmacTx) : TxEvent → GmacTx
  | .tx p o => (s.nuGmacTx p o).2
  | .done d => s.transmitDone d
  | .interrupt dmaStatus => s.nuGmacIsr dmaStatus

end NuMakerMA35
