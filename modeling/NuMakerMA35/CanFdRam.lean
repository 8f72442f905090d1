import NuMakerMA35.CanFd
import NuMakerMA35.Tiling

namespace NuMakerMA35

open Words

def canfdSramSize : Nat := 0x2000
def canfdMaxRxFifoElems : Nat := 64
def canfdMaxRxBufElems : Nat := 64

structure CanfdElemSizeT where
  sidfc : U32
  xidfc : U32
  rxFifo0 : U32
  rxFifo1 : U32
  rxBuf : U32
  txEventFifo : U32
  txBuf : U32
  txFifoQueue : U32

structure CanfdRamPartT where
  flssa : U32
  flesa : U32
  f0sa : U32
  f1sa : U32
  rbsa : U32
  efsa : U32
  tbsa : U32

/-- More than 32 Tx elements are made 16 and 16. -/
def CanfdElemSizeT.limitTx (size : CanfdElemSizeT) : CanfdElemSizeT :=
  if 32 < (size.txBuf + size.txFifoQueue).toNat then { size with txBuf := 16, txFifoQueue := 16 }
  else size

/-- `CANFD_CalculateRamAddress` as it is computed, with the sizes it leaves. -/
def canfdCalculateRamAddressT (old : CanfdRamPartT) (size : CanfdElemSizeT) :
    CanfdRamPartT × CanfdElemSizeT :=
  let xid := size.sidfc * 4
  let fifo0 := xid + size.xidfc * 8
  let fifo1 := fifo0 + size.rxFifo0 * 72
  let rxBuf := fifo1 + size.rxFifo1 * 72
  let txEvent := rxBuf + size.rxBuf * 72
  let txBuf := txEvent + size.txEventFifo * 8
  ({ flssa := if size.sidfc ≠ 0 then 0 else old.flssa
     flesa := if size.xidfc ≠ 0 then xid else old.flesa
     f0sa := if size.rxFifo0 ≠ 0 then fifo0 else old.f0sa
     f1sa := if size.rxFifo1 ≠ 0 then fifo1 else old.f1sa
     rbsa := if size.rxBuf ≠ 0 then rxBuf else old.rbsa
     efsa := if size.txEventFifo ≠ 0 then txEvent else old.efsa
     tbsa := if size.txBuf + size.txFifoQueue ≠ 0 then txBuf else old.tbsa }, size.limitTx)

structure CanfdRegs where
  sidfc : U32
  xidfc : U32
  rxf0c : U32
  rxf1c : U32
  rxbc : U32
  txefc : U32
  txbc : U32

def canfdAddrMsk : U32 := 0xfffc

def CanfdRegs.part (r : CanfdRegs) : CanfdRamPart where
  flssa := (r.sidfc &&& canfdAddrMsk).toNat
  flesa := (r.xidfc &&& canfdAddrMsk).toNat
  f0sa := (r.rxf0c &&& canfdAddrMsk).toNat
  f1sa := (r.rxf1c &&& canfdAddrMsk).toNat
  rbsa := (r.rxbc &&& canfdAddrMsk).toNat
  efsa := (r.txefc &&& canfdAddrMsk).toNat
  tbsa := (r.txbc &&& canfdAddrMsk).toNat

/-- The controller while it is opened; the memory is addressed from the base of the message RAM. -/
structure CanfdSetup where
  regs : CanfdRegs
  ram : Mem

def memsetZero (ram : Mem) (a n : Nat) : Mem := fun x => if a ≤ x ∧ x < a + n then 0 else ram x

def canfdElementWords (size : Nat) : Nat := if size < 5 then size + 4 else size * 4 - 10

def canfdByte64 : Nat := 7

/-- The bytes `memset` is given for `n` elements of 64 data bytes. -/
def canfdClearBytes (n : U32) : Nat := (BitVec.ofNat 32 (canfdElementWords canfdByte64 * 4) * n).toNat

namespace CanfdSetup

variable (part : CanfdRamPartT) (size : CanfdElemSizeT) (s : CanfdSetup)

/-- `CANFD_ConfigSIDFC`; the address is taken before the register is written. -/
def configSidfc : CanfdSetup :=
  let headAddr := s.regs.part.flssa
  { regs := { s.regs with sidfc := (size.sidfc &&& 0xff) <<< 16 ||| (part.flssa &&& canfdAddrMsk) }
    ram := memsetZero s.ram headAddr (size.sidfc * 4).toNat }

def configXidfc : CanfdSetup :=
  let headAddr := s.regs.part.flesa
  { regs := { s.regs with xidfc := (size.xidfc &&& 0xff) <<< 16 ||| (part.flesa &&& canfdAddrMsk) }
    ram := memsetZero s.ram headAddr (size.xidfc * 8).toNat }

def initTxDBuf : CanfdSetup :=
  let size := size.limitTx
  let regs := { s.regs with
    txbc := (size.txFifoQueue &&& 0x3f) <<< 24 ||| (size.txBuf &&& 0x3f) <<< 16 |||
      (part.tbsa &&& canfdAddrMsk) }
  { regs, ram := memsetZero s.ram regs.part.tbsa (canfdClearBytes size.txBuf) }

/-- `CANFD_InitRxDBuf`; the address is taken before the register is written. -/
def initRxDBuf : CanfdSetup :=
  let headAddr := s.regs.part.rbsa
  { regs := { s.regs with rxbc := part.rbsa &&& canfdAddrMsk }
    ram := memsetZero s.ram headAddr (canfdClearBytes size.rxBuf) }

def initRxFifo0 : CanfdSetup :=
  if canfdMaxRxFifoElems < size.rxFifo0.toNat ∨ canfdMaxRxFifoElems < size.rxFifo1.toNat then s
  else
    let regs := { s.regs with rxf0c := part.f0sa ||| size.rxFifo0 <<< 16 }
    { regs, ram := memsetZero s.ram regs.part.f0sa (canfdClearBytes size.rxFifo0) }

def initRxFifo1 : CanfdSetup :=
  if canfdMaxRxFifoElems < size.rxFifo0.toNat ∨ canfdMaxRxFifoElems < size.rxFifo1.toNat then s
  else
    let regs := { s.regs with rxf1c := part.f1sa ||| size.rxFifo1 <<< 16 }
    { regs, ram := memsetZero s.ram regs.part.f1sa (canfdClearBytes size.rxFifo1) }

def initTxEvntFifo : CanfdSetup :=
  { s with regs := { s.regs with
      txefc := size.txEventFifo <<< 16 ||| (part.efsa &&& canfdAddrMsk) } }

end CanfdSetup

/-- `CANFD_Open`: `SYS_ResetModule` clears the registers and leaves the memory; then each part with
elements is configured. -/
def canfdOpen (part : CanfdRamPartT) (size : CanfdElemSizeT) (ram : Mem) : CanfdSetup :=
  let s : CanfdSetup := ⟨⟨0, 0, 0, 0, 0, 0, 0⟩, ram⟩
  let s := if size.sidfc ≠ 0 then s.configSidfc part size else s
  let s := if size.xidfc ≠ 0 then s.configXidfc part size else s
  let s := if size.txBuf ≠ 0 ∨ size.txFifoQueue ≠ 0 then s.initTxDBuf part size else s
  let size := if size.txBuf ≠ 0 ∨ size.txFifoQueue ≠ 0 then size.limitTx else size
  let s := if size.rxBuf ≠ 0 then s.initRxDBuf part size else s
  let s := if size.rxFifo0 ≠ 0 then s.initRxFifo0 part size else s
  let s := if size.rxFifo1 ≠ 0 then s.initRxFifo1 part size else s
  if size.txEventFifo ≠ 0 then s.initTxEvntFifo part size else s

structure RamRegion where
  start : Nat
  bytes : Nat

namespace RamRegion

def Holds (r : RamRegion) (x : Nat) : Prop := r.start ≤ x ∧ x < r.start + r.bytes

def Disjoint (r r' : RamRegion) : Prop := ∀ x, ¬(r.Holds x ∧ r'.Holds x)

end RamRegion

inductive CanfdPart where
  | sid
  | xid
  | rf0
  | rf1
  | drb
  | tef
  | dtb
  deriving DecidableEq

namespace CanfdPart

def elementBytes : CanfdPart → Nat
  | sid => canfdSidSize
  | xid => canfdXidSize
  | rf0 | rf1 | drb => canfdRxBufSize
  | tef => canfdTxEventSize
  | dtb => canfdTxBufSize

/-- Dedicated Tx buffers and the Tx FIFO or queue share a region. -/
def count (size : CanfdElemSizeT) : CanfdPart → Nat
  | sid => size.sidfc.toNat
  | xid => size.xidfc.toNat
  | rf0 => size.rxFifo0.toNat
  | rf1 => size.rxFifo1.toNat
  | drb => size.rxBuf.toNat
  | tef => size.txEventFifo.toNat
  | dtb => size.txBuf.toNat + size.txFifoQueue.toNat

def start (part : CanfdRamPartT) : CanfdPart → Nat
  | sid => part.flssa.toNat
  | xid => part.flesa.toNat
  | rf0 => part.f0sa.toNat
  | rf1 => part.f1sa.toNat
  | drb => part.rbsa.toNat
  | tef => part.efsa.toNat
  | dtb => part.tbsa.toNat

def region (part : CanfdRamPartT) (size : CanfdElemSizeT) (p : CanfdPart) : RamRegion :=
  ⟨p.start part, p.count size * p.elementBytes⟩

def address (r : CanfdRegs) (i : Nat) : CanfdPart → Nat
  | sid => r.part.flssa + i * canfdSidSize
  | xid => r.part.flesa + i * canfdXidSize
  | rf0 => r.part.f0sa + i * canfdRxBufSize
  | rf1 => r.part.f1sa + i * canfdRxBufSize
  | drb => r.part.rbsa + i * canfdRxBufSize
  | tef => r.part.efsa + i * canfdTxEventSize
  | dtb => r.part.tbsa + i * canfdTxBufSize

/-- The indexes `CANFD_Transfer` goes on with. An index that comes from the controller is below the
size it was given; which buffers have new data or are pending is for the bus to say. -/
def Accepts (r : CanfdRegs) (i : Nat) : CanfdPart → Prop
  | sid => i < canfdMax11BitFtrElems
  | xid => i < canfdMax29BitFtrElems
  | rf0 => i < (r.rxf0c >>> 16 &&& 0x7f).toNat
  | rf1 => i < (r.rxf1c >>> 16 &&& 0x7f).toNat
  | drb => i < canfdMaxRxBufElems
  | tef => i < (r.txefc >>> 16 &&& 0x3f).toNat
  | dtb => i < canfdMaxTxBufElems

end CanfdPart

section Claims

variable (old : CanfdRamPartT) (size : CanfdElemSizeT)

def CanfdLayoutSafe : Prop :=
  let r := canfdCalculateRamAddressT old size
  (∀ p : CanfdPart, 0 < p.count r.2 →
    (p.region r.1 r.2).start + (p.region r.1 r.2).bytes ≤ canfdSramSize) ∧
  ∀ p q : CanfdPart, p ≠ q → (p.region r.1 r.2).Disjoint (q.region r.1 r.2)

def CanfdAccessesInside : Prop :=
  let r := canfdCalculateRamAddressT old size
  ∀ ram, ∀ p : CanfdPart, ∀ i, p.Accepts (canfdOpen r.1 r.2 ram).regs i →
    (p.region r.1 r.2).start ≤ p.address (canfdOpen r.1 r.2 ram).regs i ∧
      p.address (canfdOpen r.1 r.2 ram).regs i + p.elementBytes ≤
        (p.region r.1 r.2).start + (p.region r.1 r.2).bytes

/-- Filter elements and Rx buffers are zero once the controller is open. -/
def CanfdOpenClears : Prop :=
  let r := canfdCalculateRamAddressT old size
  ∀ ram, ∀ p ∈ [CanfdPart.sid, .xid, .drb], ∀ x, (p.region r.1 r.2).Holds x →
    (canfdOpen r.1 r.2 ram).ram x = 0

end Claims

end NuMakerMA35
