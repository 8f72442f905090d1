import NuMakerMA35.Ehci

namespace NuMakerMA35

def flSize : Nat := 1024
def ehciIsoDelay : Nat := 2
def hsusbhUfindrFiMsk : U32 := 0x3fff

def itdHlnkItd (x : U32) : U32 := x &&& ~~~0x1f ||| 0x0
def itdStatusActive : U32 := 0x80000000
def itdXlenPos : Nat := 16
def itdIoc : U32 := (1 : U32) <<< 15
def itdEpNumPos : Nat := 8
def itdDirIn : U32 := (1 : U32) <<< 11
def itdDirOut : U32 := (0 : U32) <<< 11

def sitdListEnd : U32 := 0x1
def sitdXferIoMsk : U32 := (1 : U32) <<< 31
def sitdXferIn : U32 := (1 : U32) <<< 31
def sitdXferOut : U32 := (0 : U32) <<< 31
def sitdPortNumPos : Nat := 24
def sitdHubAddrPos : Nat := 16
def sitdEpNumPos : Nat := 8
def sitdDevAddrPos : Nat := 0
def sitdIoc : U32 := (1 : U32) <<< 31
def sitdXferCntPos : Nat := 16
def sitdStatusActive : U32 := 0x80
def sitdHlnkSitd (x : U32) : U32 := x &&& ~~~0x1f ||| 0x4
def sitdPtr (x : U32) : U32 := x &&& ~~~0x1f
def hlinkIsTerminated (x : U32) : Bool := x &&& 0x1 ≠ 0
def hlinkIsSitd (x : U32) : Bool := x &&& 0x6 = 0x4

def sitdOutSmask : List U32 := [0x01, 0x03, 0x07, 0x0f, 0x1f, 0x3f]

structure Itd where
  transaction : Nat → U32
  bptr : Nat → U32
  utr : U32
  buffBase : U32
  fidx : Nat
  transMask : BitVec 8
  schedFrnidx : Nat

structure Sitd where
  chrst : U32
  sched : U32
  stsCtrl : U32
  bptr0 : U32
  bptr1 : U32
  backLink : U32
  utr : U32
  fidx : Nat
  schedFrnidx : Nat

structure IsoEp where
  nextFrame : Nat
  itdList : List U32
  sitdList : List U32

/-- The pool, the structures at their addresses, the first word of each element of the periodic
schedule, the frame list and the registers; `isoMem` tells what `usbh_alloc_mem` returns next. -/
structure EhciIso extends UnitSource where
  itds : U32 → Itd
  sitds : U32 → Sitd
  nextLink : U32 → U32
  pfList : Nat → U32
  isoEps : U32 → IsoEp
  isoEpList : List U32
  isoMem : List U32
  eps : U32 → EpInfo
  udevs : U32 → Udev
  utrs : U32 → Utr
  ufindr : U32
  ucmdr : U32

/-- The microframes of a descriptor that carry a packet, the descriptors of a transfer and the frames
from one to the next. -/
structure ItdPlan where
  transMask : BitVec 8
  itdCnt : Nat
  interval : Nat

def itdPlan (bInterval : Nat) : ItdPlan :=
  if bInterval < 2 then ⟨0xff, 1, 1⟩
  else if bInterval < 4 then ⟨0x55, 2, 1⟩
  else if bInterval < 8 then ⟨0x44, 4, 1⟩
  else if bInterval < 16 then ⟨0x08, 8, 1⟩
  else if bInterval < 32 then ⟨0x10, 8, 2⟩
  else if bInterval < 64 then ⟨0x02, 8, 4⟩
  else ⟨0x04, 8, 8⟩

def writeItdInfo (d : Udev) (ep : EpInfo) (buffBase : U32) : Nat → U32 := fun i =>
  let page := (buffBase &&& 0xfffff000) + BitVec.ofNat 32 (0x1000 * i)
  match i with
  | 0 => page ||| d.devNum.setWidth 32 ||| (ep.bEndpointAddress &&& 0xf).setWidth 32 <<< itdEpNumPos
  | 1 =>
    page ||| ep.wMaxPacketSize.setWidth 32 |||
      (if ep.bEndpointAddress &&& epAddrDirMask = epAddrDirIn then itdDirIn else itdDirOut)
  | 2 => page ||| BitVec.ofNat 32 ((ep.wMaxPacketSize.toNat + 1023) / 1024)
  | _ => page

def writeItdMicroFrame (u : Utr) (fidx : Nat) (buffBase : U32) : U32 :=
  let buffAddr := u.isoBuff fidx
  itdStatusActive ||| ((u.isoXlen fidx).setWidth 32 &&& 0xfff) <<< itdXlenPos |||
    ((buffAddr &&& 0xfffff000) - (buffBase &&& 0xfffff000)) ||| buffAddr &&& 0xfff

/-- The loop of `ehci_iso_xfer` over `n` microframes of a descriptor from `i` on. -/
@[grind =] def settleFrames (u : Utr) (buffBase : U32) (transMask : BitVec 8) :
    Nat → Nat → Nat → (Nat → U32) → (Nat → U32) × Nat
  | 0, _, fidx, transaction => (transaction, fidx)
  | n + 1, i, fidx, transaction =>
    if transMask.getLsbD i = false then
      settleFrames u buffBase transMask n (i + 1) fidx (Function.update transaction i 0)
    else
      let word := writeItdMicroFrame u fidx buffBase
      if fidx + 1 = ifPerUtr then (Function.update transaction i (word ||| itdIoc), fidx + 1)
      else settleFrames u buffBase transMask n (i + 1) (fidx + 1) (Function.update transaction i word)

/-- The masks of a packet of `scnt` splits; nothing comes back where `write_sitd_info` shifts out of an
`int` or reads outside of its table. -/
def sitdSched (isIn : Bool) (scnt : Nat) : Option U32 :=
  if isIn then
    if scnt + 2 < 31 then some (BitVec.ofNat 32 (2 ^ (scnt + 2) - 1) <<< 10 ||| 0x1) else none
  else if scnt = 0 then none
  else sitdOutSmask[scnt - 1]?

def writeSitdInfo (d : Udev) (hub : HubDev) (ep : EpInfo) (u : Utr) (sitd : Sitd) : Option Sitd := do
  let xlen := (u.isoXlen sitd.fidx).toNat
  let buffAddr := u.isoBuff sitd.fidx
  let scnt := (xlen + 187) / 188
  let chrst := d.portNum.setWidth 32 <<< sitdPortNumPos ||| hub.devNum.setWidth 32 <<< sitdHubAddrPos |||
    (ep.bEndpointAddress &&& 0xf).setWidth 32 <<< sitdEpNumPos ||| d.devNum.setWidth 32 <<< sitdDevAddrPos
  let bptr1 := (buffAddr &&& 0xfffff000) + 0x1000
  let isIn : Bool := ep.bEndpointAddress &&& epAddrDirMask = epAddrDirIn
  let sched ← sitdSched isIn scnt
  let bptr1 := if isIn then bptr1
    else bptr1 ||| (if scnt > 1 then (0x1 : U32) <<< 3 else 0) ||| BitVec.ofNat 32 scnt
  some { sitd with
    chrst := chrst ||| if isIn then sitdXferIn else sitdXferOut
    bptr0 := buffAddr
    bptr1 := bptr1
    sched := if sitd.fidx = ifPerUtr then sched ||| sitdIoc else sched
    stsCtrl := BitVec.ofNat 32 xlen <<< sitdXferCntPos ||| sitdStatusActive
    backLink := sitdListEnd }

def Sitd.uframes (d : Sitd) : U32 :=
  if d.chrst &&& sitdXferIoMsk = sitdXferIn then
    d.sched &&& (0xff : U32) ||| d.sched >>> 8 &&& (0xff : U32)
  else d.sched &&& (0xff : U32)

def shiftSched (uframeMask : U32) : Nat → U32 → Option U32
  | 0, _ => none
  | turns + 1, sched =>
    if sched &&& uframeMask ≠ 0 then
      shiftSched uframeMask turns (sched &&& (0xffff0000 : U32) ||| sched <<< 1 &&& (0xffff : U32))
    else some sched

namespace EhciIso

def setItd (s : EhciIso) (a : U32) (f : Itd → Itd) : EhciIso :=
  { s with itds := Function.update s.itds a (f (s.itds a)) }

def setSitd (s : EhciIso) (a : U32) (f : Sitd → Sitd) : EhciIso :=
  { s with sitds := Function.update s.sitds a (f (s.sitds a)) }

def setIsoEp (s : EhciIso) (a : U32) (f : IsoEp → IsoEp) : EhciIso :=
  { s with isoEps := Function.update s.isoEps a (f (s.isoEps a)) }

def setUtr (s : EhciIso) (a : U32) (f : Utr → Utr) : EhciIso :=
  { s with utrs := Function.update s.utrs a (f (s.utrs a)) }

def take (s : EhciIso) (alloc : UnitPool → Option (Nat × UnitPool)) : U32 × EhciIso :=
  let unit := s.toUnitSource.take alloc
  (unit.1, { s with toUnitSource := unit.2 })

def allocItd (b : UnitBase) (s : EhciIso) : U32 × EhciIso :=
  let itd := s.take (allocEhciITD b)
  if itd.1 = 0 then itd
  else (itd.1, { itd.2.setItd itd.1 fun _ => ⟨0, 0, 0, 0, 0, 0, 0⟩ with
    nextLink := Function.update itd.2.nextLink itd.1 0 })

def allocSitd (b : UnitBase) (s : EhciIso) : U32 × EhciIso :=
  let sitd := s.take (allocEhciSiTD b)
  if sitd.1 = 0 then sitd
  else (sitd.1, { sitd.2.setSitd sitd.1 fun _ => ⟨0, 0, 0, 0, 0, 0, 0, 0, 0⟩ with
    nextLink := Function.update sitd.2.nextLink sitd.1 0 })

def freeItd (b : UnitBase) (s : EhciIso) (itd : U32) : EhciIso :=
  { s with pool := freeEhciITD b s.pool itd.toNat }

def freeSitd (b : UnitBase) (s : EhciIso) (sitd : U32) : EhciIso :=
  { s with pool := freeEhciSiTD b s.pool sitd.toNat }

/-- The loops that allocate the descriptors of a transfer; the last comes first. -/
def allocAll (alloc : EhciIso → U32 × EhciIso) : Nat → List U32 → EhciIso → EhciIso × List U32 × Bool
  | 0, list, s => (s, list, true)
  | n + 1, list, s =>
    let td := alloc s
    if td.1 = 0 then (td.2, list, false) else allocAll alloc n (td.1 :: list) td.2

def fillItd (s : EhciIso) (utr itd : U32) (transMask : BitVec 8) (fidx : Nat) : EhciIso × Nat :=
  let u := s.utrs utr
  let buffBase := u.isoBuff fidx
  let settled := settleFrames u buffBase transMask 8 0 fidx (s.itds itd).transaction
  (s.setItd itd fun d => { d with
    utr := utr
    fidx := fidx
    buffBase := buffBase
    transMask := transMask
    bptr := writeItdInfo (s.udevs u.udev) (s.eps u.ep) buffBase
    transaction := settled.1 }, settled.2)

def linkItd (s : EhciIso) (isoEp itd : U32) (interval : Nat) : EhciIso :=
  let frame := (s.isoEps isoEp).nextFrame
  let s := s.setItd itd fun d => { d with schedFrnidx := frame }
  let s := s.setIsoEp isoEp fun e =>
    { e with itdList := e.itdList ++ [itd], nextFrame := (frame + interval) % flSize }
  { s with
    nextLink := Function.update s.nextLink itd (s.pfList frame)
    pfList := Function.update s.pfList frame (itdHlnkItd itd) }

/-- The loop of `ehci_iso_xfer` over its descriptors, with those linked so far; it ends early where
no packet is left. -/
def fillItds (utr isoEp : U32) (plan : ItdPlan) :
    List U32 → Nat → List U32 → EhciIso → EhciIso × List U32 × Bool
  | [], _, linked, s => (s, linked, true)
  | itd :: rest, fidx, linked, s =>
    if fidx ≥ ifPerUtr then (s, linked, false)
    else
      let filled := s.fillItd utr itd plan.transMask fidx
      fillItds utr isoEp plan rest filled.2 (linked ++ [itd]) (filled.1.linkItd isoEp itd plan.interval)

def uframeMask (s : EhciIso) (sitd : U32) : Nat → U32 → U32 → Option U32
  | 0, _, _ => none
  | turns + 1, hlink, mask =>
    if hlink ≠ 0 ∧ hlinkIsTerminated hlink = false ∧ hlinkIsSitd hlink then
      let hlink := sitdPtr hlink
      let mask := if hlink ≠ sitd then mask ||| (s.sitds hlink).uframes else mask
      uframeMask s sitd turns (sitdPtr (s.nextLink hlink)) mask
    else some mask

def adjustSchedule (turns : Nat) (s : EhciIso) (sitd : U32) : Option EhciIso := do
  let mask ← s.uframeMask sitd turns (s.pfList (s.sitds sitd).schedFrnidx) 0
  let mask := mask ||| mask <<< 8
  if mask ≠ 0 then
    let sched ← shiftSched mask turns (s.sitds sitd).sched
    some (s.setSitd sitd fun d => { d with sched := sched })
  else some s

/-- The schedule of a descriptor is adjusted, and it is linked into the frame list and behind the
endpoint's. -/
def linkSitd (turns : Nat) (s : EhciIso) (isoEp sitd : U32) (bInterval : Nat) : Option EhciIso := do
  let frame := (s.isoEps isoEp).nextFrame
  let s := s.setSitd sitd fun d => { d with schedFrnidx := frame }
  let s ← s.adjustSchedule turns sitd
  let s := s.setIsoEp isoEp fun e =>
    { e with sitdList := e.sitdList ++ [sitd], nextFrame := (frame + bInterval) % flSize }
  some { s with
    nextLink := Function.update s.nextLink sitd (s.pfList frame)
    pfList := Function.update s.pfList frame (sitdHlnkSitd sitd) }

/-- The loop of `ehci_iso_split_xfer` over its descriptors, with those linked so far. -/
def fillSitds (turns : Nat) (utr isoEp : U32) (hub : HubDev) :
    List U32 → Nat → List U32 → EhciIso → Option (EhciIso × List U32 × Bool)
  | [], _, linked, s => some (s, linked, true)
  | sitd :: rest, fidx, linked, s =>
    if fidx ≥ ifPerUtr then some (s, linked, false)
    else do
      let u := s.utrs utr
      let d ← writeSitdInfo (s.udevs u.udev) hub (s.eps u.ep) u
        { s.sitds sitd with utr := utr, fidx := fidx }
      let s := s.setSitd sitd fun _ => d
      let s ← s.linkSitd turns isoEp sitd (s.eps u.ep).bInterval.toNat
      fillSitds turns utr isoEp hub rest (fidx + 1) (linked ++ [sitd]) s

def isoSplitXfer (b : UnitBase) (turns : Nat) (s : EhciIso) (utr isoEp : U32) : Option (EhciIso × Int) :=
  match (s.udevs (s.utrs utr).udev).hubs.head? with
  | none => some (s, usbhErrInvalidParam)
  | some hub => do
    let sitds := allocAll (allocSitd b) ifPerUtr [] s
    if sitds.2.2 = false then some (sitds.2.1.foldl (freeSitd b) sitds.1, usbhErrMemoryOut)
    else
      let s := sitds.1.setUtr utr fun u => { u with
        tdCnt := ifPerUtr
        isoSf := BitVec.ofNat 16 (sitds.1.isoEps isoEp).nextFrame }
      let filled ← fillSitds turns utr isoEp hub sitds.2.1 0 [] s
      if filled.2.2 = false then
        some (filled.2.1.foldl (freeSitd b) filled.1, usbhErrMemoryOut)
      else some ({ filled.1 with ucmdr := filled.1.ucmdr ||| hsusbhUcmdrPsenMsk }, 0)

def newFrame (s : EhciIso) : Nat :=
  (((s.ufindr + BitVec.ofNat 32 (ehciIsoDelay * 8)) &&& hsusbhUfindrFiMsk) >>> 3 &&& 0x3ff).toNat

def pipeIsoEp (s : EhciIso) (utr : U32) : U32 × EhciIso :=
  let u := s.utrs utr
  let isoEp := (s.eps u.ep).hwPipe
  if isoEp ≠ 0 then
    (isoEp,
      if u.bIsoNewSched then s.setIsoEp isoEp fun e => { e with nextFrame := s.newFrame } else s)
  else
    let isoEp := s.isoMem.headD 0
    let s := { s with isoMem := s.isoMem.tail }
    if isoEp = 0 then (0, s)
    else
      (isoEp, { s.setIsoEp isoEp fun _ => ⟨s.newFrame, [], []⟩ with
        eps := Function.update s.eps u.ep { s.eps u.ep with hwPipe := isoEp }
        isoEpList := isoEp :: s.isoEpList })

def isoXfer (b : UnitBase) (turns : Nat) (s : EhciIso) (utr : U32) : Option (EhciIso × Int) :=
  let found := s.pipeIsoEp utr
  let isoEp := found.1
  let s := found.2
  let u := s.utrs utr
  if isoEp = 0 then some (s, usbhErrMemoryOut)
  else if (s.udevs u.udev).speed = .full then s.isoSplitXfer b turns utr isoEp
  else
    let plan := itdPlan (s.eps u.ep).bInterval.toNat
    let itds := allocAll (allocItd b) plan.itdCnt [] s
    if itds.2.2 = false then some (itds.2.1.foldl (freeItd b) itds.1, usbhErrMemoryOut)
    else
      let s := itds.1.setUtr utr fun u => { u with
        tdCnt := plan.itdCnt
        isoSf := BitVec.ofNat 16 (itds.1.isoEps isoEp).nextFrame }
      let filled := fillItds utr isoEp plan itds.2.1 0 [] s
      if filled.2.2 = false then
        some (filled.2.1.foldl (freeItd b) filled.1, usbhErrMemoryOut)
      else some ({ filled.1 with ucmdr := filled.1.ucmdr ||| hsusbhUcmdrPsenMsk }, 0)

end EhciIso

end NuMakerMA35
