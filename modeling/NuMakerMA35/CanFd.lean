import NuMakerMA35.PdmaChannel
import NuMakerMA35.Words

namespace NuMakerMA35

open Words

def canfdMax11BitFtrElems : Nat := 128
def canfdMax29BitFtrElems : Nat := 64
def canfdMaxTxBufElems : Nat := 32

def bitField (w : U32) (pos len : Nat) : BitVec len := w.extractLsb' pos len

structure CanfdElemSize where
  sidfc : Nat
  xidfc : Nat
  rxFifo0 : Nat
  rxFifo1 : Nat
  rxBuf : Nat
  txEventFifo : Nat
  txBuf : Nat
  txFifoQueue : Nat

structure CanfdRamPart where
  flssa : Nat
  flesa : Nat
  f0sa : Nat
  f1sa : Nat
  rbsa : Nat
  efsa : Nat
  tbsa : Nat

def canfdSidSize : Nat := 4
def canfdXidSize : Nat := 8
def canfdRxBufSize : Nat := 72
def canfdTxBufSize : Nat := 72
def canfdTxEventSize : Nat := 8

/-- A part with no elements keeps the start it has. -/
def canfdCalculateRamAddress (old : CanfdRamPart) (size : CanfdElemSize) : CanfdRamPart :=
  let xid := size.sidfc * canfdSidSize
  let fifo0 := xid + size.xidfc * canfdXidSize
  let fifo1 := fifo0 + size.rxFifo0 * canfdRxBufSize
  let rxBuf := fifo1 + size.rxFifo1 * canfdRxBufSize
  let txEvent := rxBuf + size.rxBuf * canfdRxBufSize
  let txBuf := txEvent + size.txEventFifo * canfdTxEventSize
  { flssa := if 0 < size.sidfc then 0 else old.flssa
    flesa := if 0 < size.xidfc then xid else old.flesa
    f0sa := if 0 < size.rxFifo0 then fifo0 else old.f0sa
    f1sa := if 0 < size.rxFifo1 then fifo1 else old.f1sa
    rbsa := if 0 < size.rxBuf then rxBuf else old.rbsa
    efsa := if 0 < size.txEventFifo then txEvent else old.efsa
    tbsa := if 0 < size.txBuf + size.txFifoQueue then txBuf else old.tbsa }

/-- The sizes `nu_canfd_configure` asks for. -/
def nuCanfdElemSize : CanfdElemSize := ⟨16, 16, 16, 16, 16, 16, 16, 16⟩

def nuCanfdRamPart (old : CanfdRamPart) : CanfdRamPart :=
  canfdCalculateRamAddress old nuCanfdElemSize

structure Canfd where
  ram : Mem
  part : CanfdRamPart
  txbrp : U32
  txbar : U32
  fillLevel : Nat
  getIndex : Nat
  rxAck : Option Nat

/-- `rsv` is what the bits the structure leaves unnamed held on the stack. -/
structure CanfdSidFilter where
  sfid2 : BitVec 11
  rsv : BitVec 5
  sfid1 : BitVec 11
  sfec : BitVec 3
  sft : BitVec 2

def CanfdSidFilter.word (f : CanfdSidFilter) : U32 :=
  (f.sft ++ f.sfec ++ f.sfid1 ++ f.rsv ++ f.sfid2 : BitVec (2 + 3 + 11 + 5 + 11))

structure CanfdXidFilter where
  efid1 : BitVec 29
  efec : BitVec 3
  efid2 : BitVec 29
  rsv : BitVec 1
  eft : BitVec 2

def CanfdXidFilter.word0 (f : CanfdXidFilter) : U32 := (f.efec ++ f.efid1 : BitVec (3 + 29))
def CanfdXidFilter.word1 (f : CanfdXidFilter) : U32 :=
  (f.eft ++ f.rsv ++ f.efid2 : BitVec (2 + 1 + 29))

def Canfd.sidAddr (c : Canfd) (i : Nat) : Nat := c.part.flssa + i * canfdSidSize
def Canfd.xidAddr (c : Canfd) (i : Nat) : Nat := c.part.flesa + i * canfdXidSize
def Canfd.txBufAddr (c : Canfd) (i : Nat) : Nat := c.part.tbsa + i * canfdTxBufSize
def Canfd.rf0BufAddr (c : Canfd) (i : Nat) : Nat := c.part.f0sa + i * canfdRxBufSize

def canfdTransferSid (c : Canfd) (f : CanfdSidFilter) (i : Nat) : Option Canfd :=
  if canfdMax11BitFtrElems ≤ i then none
  else some { c with ram := write32 c.ram (c.sidAddr i) f.word }

def canfdTransferXid (c : Canfd) (f : CanfdXidFilter) (i : Nat) : Option Canfd :=
  if canfdMax29BitFtrElems ≤ i then none
  else some { c with
    ram := write32 (write32 c.ram (c.xidAddr i) f.word0) (c.xidAddr i + 4) f.word1 }

structure CanfdTxBuf where
  id : BitVec 29
  rtr : BitVec 1
  xtd : BitVec 1
  esi : BitVec 1
  mmH : BitVec 8
  dlc : BitVec 4
  brs : BitVec 1
  fdf : BitVec 1
  efc : BitVec 1
  mmL : BitVec 8
  db : Nat → BitVec 8

def CanfdTxBuf.t0 (m : CanfdTxBuf) : U32 :=
  (m.esi ++ m.xtd ++ m.rtr ++ m.id : BitVec (1 + 1 + 1 + 29))
def CanfdTxBuf.t1 (m : CanfdTxBuf) : U32 :=
  (m.mmL ++ m.efc ++ 0#1 ++ m.fdf ++ m.brs ++ m.dlc ++ m.mmH ++ 0#8 :
    BitVec (8 + 1 + 1 + 1 + 1 + 4 + 8 + 8))

def CanfdTxBuf.writeTo (m : CanfdTxBuf) (ram : Mem) (a : Nat) : Mem := fun x =>
  if a + 8 ≤ x ∧ x < a + canfdTxBufSize then m.db (x - (a + 8))
  else write32 (write32 ram a m.t0) (a + 4) m.t1 x

def canfdTransferDtb (c : Canfd) (m : CanfdTxBuf) (i : Nat) : Option Canfd :=
  if canfdMaxTxBufElems ≤ i then none
  else if c.txbrp.getLsbD i then none
  else some { c with
    ram := m.writeTo c.ram (c.txBufAddr i)
    txbar := BitVec.ofNat 32 (1 <<< i) }

structure CanfdRxBuf where
  id : BitVec 29
  rtr : BitVec 1
  xtd : BitVec 1
  esi : BitVec 1
  rxts : BitVec 16
  dlc : BitVec 4
  brs : BitVec 1
  fdf : BitVec 1
  fidx : BitVec 7
  anmf : BitVec 1
  db : Nat → BitVec 8

def CanfdRxBuf.readFrom (ram : Mem) (a : Nat) : CanfdRxBuf where
  id := bitField (read32 ram a) 0 29
  rtr := bitField (read32 ram a) 29 1
  xtd := bitField (read32 ram a) 30 1
  esi := bitField (read32 ram a) 31 1
  rxts := bitField (read32 ram (a + 4)) 0 16
  dlc := bitField (read32 ram (a + 4)) 16 4
  brs := bitField (read32 ram (a + 4)) 20 1
  fdf := bitField (read32 ram (a + 4)) 21 1
  fidx := bitField (read32 ram (a + 4)) 24 7
  anmf := bitField (read32 ram (a + 4)) 31 1
  db k := ram (a + 8 + k)

/-- `CANFD_Transfer` with `eCANFD_MSG_RF0`: the element the get index names, acknowledged. -/
def canfdTransferRf0 (c : Canfd) : Option (Canfd × CanfdRxBuf) :=
  if 0 < c.fillLevel then
    some ({ c with rxAck := some c.getIndex }, .readFrom c.ram (c.rf0BufAddr c.getIndex))
  else none

def canfdIdle : Canfd where
  ram := fun _ => 0
  part := nuCanfdRamPart ⟨0, 0, 0, 0, 0, 0, 0⟩
  txbrp := 0
  txbar := 0
  fillLevel := 0
  getIndex := 0
  rxAck := none

end NuMakerMA35
