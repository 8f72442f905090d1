import NuMakerMA35.Gmac

namespace NuMakerMA35

open Words

/-- What the DMA leaves in one receive descriptor and its buffer. A frame that lies in this
descriptor alone is as long as its status says, CRC included. -/
structure RxFrame where
  status : U32
  data : List Byte
  given : status &&& descOwnByDma = 0
  fits : data.length ≤ pktFrameBufSize
  whole : synopGMACIsRxDescValid status →
    data.length = (synopGMACGetRxDescFrameLength status).toNat

/-- The receive side of `synopGMACdevice` with its descriptors and buffers. Descriptor pointers
are positions in `descs`; `dma` is the descriptor the DMA fills next, `arrived` what it has stored
so far and `passed` what `netif->input` was given. -/
structure GmacRx where
  frames : FrameArea
  descs : Nat → DmaDesc
  rxNext : Nat
  rxBusy : Nat
  rxNextDesc : Nat
  rxBusyDesc : Nat
  busyRxDesc : U32
  mem : Mem
  dma : Nat
  arrived : List RxFrame
  passed : List (Option (List Byte))

namespace GmacRx

def synopGMACSetRxQptr (s : GmacRx) (buffer1 length1 : U32) : Int × GmacRx :=
  let rxdesc := s.descs s.rxNextDesc
  if ¬synopGMACIsDescEmpty rxdesc then (-1, s)
  else
    let length := rxdesc.length ||| (length1 &&& descSize1Mask)
    let length := if s.rxNext % moduloInterrupt ≠ 0 then length ||| rxDisIntCompl else length
    let rxdesc : DmaDesc := ⟨descOwnByDma, length, buffer1⟩
    let last := synopGMACIsLastRxDesc rxdesc
    (s.rxNext, { s with
      descs := Function.update s.descs s.rxNextDesc rxdesc
      rxNext := if last then 0 else s.rxNext + 1
      rxNextDesc := if last then 0 else s.rxNextDesc + 1
      busyRxDesc := s.busyRxDesc + 1 })

def synopGMACGetRxQptr (s : GmacRx) : Option (U32 × U32) × GmacRx :=
  let rxdesc := s.descs s.rxBusyDesc
  if synopGMACIsDescOwnedByDma rxdesc then (none, s)
  else if synopGMACIsDescEmpty rxdesc then (none, s)
  else
    let last := synopGMACIsLastRxDesc rxdesc
    (some (rxdesc.status, rxdesc.buffer1), { s with
      rxBusy := if last then 0 else s.rxBusy + 1
      rxBusyDesc := if last then 0 else s.rxBusyDesc + 1
      descs := Function.update s.descs s.rxBusyDesc (synopGMACRxDescInitRing last)
      busyRxDesc := s.busyRxDesc - 1 })

/-- The length without CRC as a signed number and the frame, `NULL` where there is none. -/
def synopHandleReceivedData (s : GmacRx) : Int × U32 × GmacRx :=
  match s.synopGMACGetRxQptr with
  | (none, s) => (0, 0, s)
  | (some (status, dmaAddr1), s) =>
    if synopGMACIsRxDescValid status then
      ((synopGMACGetRxDescFrameLength status - ethernetCrc).toInt, dmaAddr1, s)
    else (0, 0, s)

/-- The DMA stores a frame, or drops it where the next descriptor is not its own. -/
def receive (s : GmacRx) (frame : RxFrame) : GmacRx :=
  let rxdesc := s.descs s.dma
  if synopGMACIsDescOwnedByDma rxdesc then
    { s with
      descs := Function.update s.descs s.dma { rxdesc with status := frame.status }
      mem := blit s.mem rxdesc.buffer1.toNat frame.data
      dma := if synopGMACIsLastRxDesc rxdesc then 0 else s.dma + 1
      arrived := s.arrived ++ [frame] }
  else s

end GmacRx

/-- One turn of the loop of `eth_rx_push`: what arrives before it, whether `pbuf_alloc` gives a
pbuf, and whether the network stack takes it. -/
structure RxTurn where
  arrivals : List RxFrame
  allocated : Bool
  accepted : Bool

namespace GmacRx

/-- The loop is followed for the turns given. -/
def ethRxPush : List RxTurn → GmacRx → GmacRx
  | [], s => s
  | turn :: turns, s =>
    let s := turn.arrivals.foldl receive s
    match s.synopHandleReceivedData with
    | (pktLen, pktFrame, s) =>
      if pktLen ≤ 0 then s
      else
        let pbuf := if turn.allocated then some (slice s.mem pktFrame.toNat pktLen.toNat) else none
        let s := (s.synopGMACSetRxQptr pktFrame (BitVec.ofNat 32 pktFrameBufSize)).2
        let s := { s with passed := s.passed ++ [pbuf] }
        if turn.accepted then ethRxPush turns s else s

def synopGMACSetupRxDescQueue (frames : FrameArea) (mem : Mem) : GmacRx where
  frames := frames
  descs i := synopGMACRxDescInitRing (i = receiveDescSize - 1)
  rxNext := 0
  rxBusy := 0
  rxNextDesc := 0
  rxBusyDesc := 0
  busyRxDesc := 0
  mem := mem
  dma := 0
  arrived := []
  passed := []

def setRxFrames : Nat → Nat → GmacRx → GmacRx
  | 0, _, s => s
  | n + 1, count, s =>
    match s.synopGMACSetRxQptr (s.frames.ptr count) (BitVec.ofNat 32 pktFrameBufSize) with
    | (status, s) => if status < 0 then s else setRxFrames n (count + 1) s

def nuGmacInit (frames : FrameArea) (mem : Mem) : GmacRx :=
  setRxFrames receiveDescSize 0 (synopGMACSetupRxDescQueue frames mem)

end GmacRx

inductive RxEvent
  | receive (frame : RxFrame)
  | push (turns : List RxTurn)

def GmacRx.step (s : GmacRx) : RxEvent → GmacRx
  | .receive frame => s.receive frame
  | .push turns => s.ethRxPush turns

/-- A frame without error that lies in one descriptor and holds more than its CRC. -/
def RxFrame.Good (frame : RxFrame) : Prop :=
  synopGMACIsRxDescValid frame.status ∧ 4 < (synopGMACGetRxDescFrameLength frame.status).toNat

instance : DecidablePred RxFrame.Good := fun _ => inferInstanceAs (Decidable (_ ∧ _))

def RxFrame.packet (frame : RxFrame) : List Byte := frame.data.take (frame.data.length - 4)

namespace GmacRx

def available (s : GmacRx) : Nat :=
  (List.range receiveDescSize).countP fun i => synopGMACIsDescOwnedByDma (s.descs i)

def unread (s : GmacRx) : Nat :=
  (List.range receiveDescSize).countP fun i =>
    ¬synopGMACIsDescOwnedByDma (s.descs i) ∧ ¬synopGMACIsDescEmpty (s.descs i)

/-- Every descriptor is available or unread, each with a buffer of its own and no buffer lost, and
of the frames taken the good ones were passed up, once each and in order. -/
structure RingSound (s : GmacRx) : Prop where
  count : s.available + s.unread = receiveDescSize
  distinct : ∀ i j, i < receiveDescSize → j < receiveDescSize → i ≠ j →
    (s.descs i).buffer1 ≠ (s.descs j).buffer1
  kept : ∀ k, k < receiveDescSize → ∃ i, i < receiveDescSize ∧
    (s.descs i).buffer1 = s.frames.ptr k
  passedUp : s.passed = ((s.arrived.take (s.arrived.length - s.unread)).filter
    (·.Good)).map fun frame => some frame.packet

end GmacRx

end NuMakerMA35
