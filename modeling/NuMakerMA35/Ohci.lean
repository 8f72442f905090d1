import NuMakerMA35.Usb
import NuMakerMA35.UnitSource

namespace NuMakerMA35

def usbhErrOhciEpBusy : Int := -303
def ohciIsoDelay : BitVec 16 := 4

def edCtrlEnPos : Nat := 7
def edEpAddrMsk : U32 := (0xf : U32) <<< 7
def edDirByTd : U32 := (0 : U32) <<< 11
def edDirOut : U32 := (1 : U32) <<< 11
def edDirIn : U32 := (2 : U32) <<< 11
def edSpeedFull : U32 := (0 : U32) <<< 13
def edSpeedLow : U32 := (1 : U32) <<< 13
def edSkip : U32 := (1 : U32) <<< 14
def edFormatGeneral : U32 := (0 : U32) <<< 15
def edFormatIso : U32 := (1 : U32) <<< 15

def tdCc : U32 := 0xf0000000
def tdT0 : U32 := 0x02000000
def tdT1 : U32 := 0x03000000
def tdR : U32 := 0x00040000
def tdDpIn : U32 := 0x00100000
def tdDpOut : U32 := 0x00080000
def tdTypeMsk : U32 := (0x3 : U32) <<< 16
def tdTypeCtrl : U32 := (0x0 : U32) <<< 16
def tdTypeBulk : U32 := (0x1 : U32) <<< 16
def tdTypeInt : U32 := (0x2 : U32) <<< 16
def tdTypeIso : U32 := (0x3 : U32) <<< 16
def tdCtrlData : U32 := (1 : U32) <<< 15

def ccNoError : Nat := 0
def ccStall : Nat := 4
def ccDataUnderrun : Nat := 9

def usbhHcControlPleMsk : U32 := (1 : U32) <<< 2
def usbhHcControlIeMsk : U32 := (1 : U32) <<< 3
def usbhHcControlCleMsk : U32 := (1 : U32) <<< 4
def usbhHcControlBleMsk : U32 := (1 : U32) <<< 5

structure Td where
  info : U32
  cbp : U32
  be : U32
  psw : U32
  buffStart : U32
  ed : U32
  utr : U32

/-- An endpoint descriptor; the descriptors linked from `HeadP` are a list, beside its low bits. -/
structure Ed where
  info : U32
  tailP : U32
  tds : List U32
  headBits : U32
  nextED : U32
  bInterval : BitVec 8
  nextSf : BitVec 16

/-- The pool, the structures at their addresses, the list heads and registers; `called` lists the
transfers reported as done, each with its callback where it has one. -/
structure Ohci extends UnitSource where
  eds : U32 → Ed
  tds : U32 → Td
  eps : U32 → EpInfo
  udevs : U32 → Udev
  utrs : U32 → Utr
  hcControlHeadED : U32
  hcBulkHeadED : U32
  hcControl : U32
  ied : Nat → U32
  frameNo : BitVec 16
  edRemoveList : List U32
  called : List U32

def Ed.headP (e : Ed) : U32 := e.tds.headD 0

def getOhciInterval (interval : Nat) : Nat :=
  match (List.range 5).find? fun i => interval / 2 ^ (i + 1) = 0 with
  | some i => 2 ^ i
  | none => 32

/-- `ed_make_info`, for a device with the packet size of its control endpoint. -/
def edMakeInfo (d : Udev) (ep : Option EpInfo) : U32 :=
  let info : U32 := match ep with
    | none =>
      d.bMaxPacketSize0.setWidth 32 <<< 16 ||| edDirByTd ||| edFormatGeneral |||
        (0 : U32) <<< edCtrlEnPos
    | some ep =>
      ep.wMaxPacketSize.setWidth 32 <<< 16 |||
        (ep.bEndpointAddress &&& 0xf).setWidth 32 <<< edCtrlEnPos |||
        (if ep.bEndpointAddress &&& epAddrDirMask = epAddrDirIn then edDirIn else edDirOut) |||
        (if ep.bmAttributes &&& epAttrTtMask = epAttrTtIso then edFormatIso else edFormatGeneral)
  info ||| (if d.speed = .low then edSpeedLow else edSpeedFull) ||| d.devNum.setWidth 32

namespace Ohci

def setEd (s : Ohci) (a : U32) (f : Ed → Ed) : Ohci :=
  { s with eds := Function.update s.eds a (f (s.eds a)) }

def setTd (s : Ohci) (a : U32) (f : Td → Td) : Ohci :=
  { s with tds := Function.update s.tds a (f (s.tds a)) }

def setEp (s : Ohci) (a : U32) (f : EpInfo → EpInfo) : Ohci :=
  { s with eps := Function.update s.eps a (f (s.eps a)) }

def setUtr (s : Ohci) (a : U32) (f : Utr → Utr) : Ohci :=
  { s with utrs := Function.update s.utrs a (f (s.utrs a)) }

def take (s : Ohci) (alloc : UnitPool → Option (Nat × UnitPool)) : U32 × Ohci :=
  let unit := s.toUnitSource.take alloc
  (unit.1, { s with toUnitSource := unit.2 })

def allocEd (b : UnitBase) (s : Ohci) : U32 × Ohci :=
  let ed := s.take (allocOhciED b)
  if ed.1 = 0 then ed else (ed.1, ed.2.setEd ed.1 fun _ => ⟨0, 0, [], 0, 0, 0, 0⟩)

def allocTd (b : UnitBase) (s : Ohci) (utr : U32) : U32 × Ohci :=
  let td := s.take (allocOhciTD b)
  if td.1 = 0 then td else (td.1, td.2.setTd td.1 fun _ => ⟨0, 0, 0, 0, 0, 0, utr⟩)

def freeEd (b : UnitBase) (s : Ohci) (ed : U32) : Ohci :=
  { s with pool := freeOhciED b s.pool ed.toNat }

def freeTd (b : UnitBase) (s : Ohci) (td : U32) : Ohci :=
  { s with pool := freeOhciTD b s.pool td.toNat }

def intTreeHead (s : Ohci) (interval : Nat) : U32 :=
  match (List.range 5).find? fun i => interval / 2 ^ (i + 1) = 0 with
  | some i => s.ied i
  | none => s.ied 5

def writeTd (s : Ohci) (td info buff dataLen : U32) : Ohci :=
  let none : Bool := buff = 0 ∨ dataLen = 0
  s.setTd td fun d => { d with
    info := info
    cbp := if none then 0 else buff
    be := if none then 0 else buff + dataLen - 1
    buffStart := if none then 0 else buff }

/-- `ed_make_info` for the control endpoint gives it a packet size first. -/
def makeCtrlInfo (s : Ohci) (udev ed : U32) : Ohci :=
  let d := s.udevs udev
  let d := if d.bMaxPacketSize0 = 0 then
      { d with bMaxPacketSize0 := if d.speed = .low then 8 else 64 }
    else d
  let s := { s with udevs := Function.update s.udevs udev d }
  s.setEd ed fun e => { e with info := edMakeInfo d none }

def ctrlStages (s : Ohci) (utr ed setup data status : U32) : Ohci :=
  let u := s.utrs utr
  let ep0 := (s.udevs u.udev).ep0
  let out := u.bmRequestType &&& 0x80 = reqTypeOut
  let s := s.writeTd setup (tdCc ||| tdT0 ||| tdTypeCtrl) (utr + 4) 8
  let s := s.setTd setup fun d => { d with ed := ed }
  let s :=
    if u.dataLen > 0 then
      let info := tdCc ||| tdR ||| (if out then tdDpOut else tdDpIn) ||| tdT1 ||| tdTypeCtrl ||| tdCtrlData
      let s := s.writeTd data info u.buff u.dataLen
      s.setTd data fun d => { d with ed := ed }
    else s
  let s := s.makeCtrlInfo u.udev ed
  let s := s.writeTd status (tdCc ||| (if out then tdDpIn else tdDpOut) ||| tdT1 ||| tdTypeCtrl) 0 0
  let s := s.setTd status fun d => { d with ed := ed }
  let s := s.setEd ed fun e => { e with
    tailP := 0
    tds := if u.dataLen > 0 then [setup, data, status] else [setup, status]
    headBits := 0 }
  let s := s.makeCtrlInfo u.udev ed
  let s := s.setEd ed fun e => { e with nextED := 0 }
  let s := s.setUtr utr fun u => { u with tdCnt := if u.dataLen > 0 then 3 else 2, ep := ep0 }
  let s := s.setEp ep0 fun e => { e with hwPipe := ed }
  { s with hcControlHeadED := ed, hcControl := s.hcControl ||| usbhHcControlCleMsk }

def allocDataTd (b : UnitBase) (s : Ohci) (utr : U32) : U32 × Ohci :=
  if (s.utrs utr).dataLen > 0 then s.allocTd b utr else (0, s)

/-- The endpoint descriptor of the endpoint, or a new one; zero for `NULL`. -/
def pipeEd (b : UnitBase) (s : Ohci) (ep : U32) : U32 × Ohci :=
  if (s.eps ep).hwPipe = 0 then s.allocEd b else ((s.eps ep).hwPipe, s)

/-- `ohci_ctrl_xfer`; nothing comes back where it writes through `NULL`. -/
def ctrlXfer (b : UnitBase) (s : Ohci) (utr : U32) : Option (Ohci × Int) :=
  let u := s.utrs utr
  let setup := s.allocTd b utr
  let data := setup.2.allocDataTd b utr
  let status := data.2.allocTd b utr
  if status.1 = 0 then
    let s := status.2.freeTd b setup.1
    let s := if u.dataLen > 0 then s.freeTd b data.1 else s
    some (s, usbhErrMemoryOut)
  else
    let ed := status.2.pipeEd b (s.udevs u.udev).ep0
    if ed.1 = 0 then
      let s := ed.2.freeTd b setup.1
      let s := s.freeTd b status.1
      let s := if u.dataLen > 0 then s.freeTd b data.1 else s
      some (s, usbhErrMemoryOut)
    else if setup.1 = 0 ∨ u.dataLen > 0 ∧ data.1 = 0 then none
    else some (ed.2.ctrlStages utr ed.1 setup.1 data.1 status.1, 0)

/-- The search for the endpoint's descriptor in a list; zero for `NULL`. It gives nothing where the
list does not end within the turns. -/
def findEd (s : Ohci) (info : U32) : Nat → U32 → Option U32
  | 0, _ => none
  | turns + 1, ed =>
    if ed = 0 then some 0
    else if (s.eds ed).info = info then some ed
    else findEd s info turns (s.eds ed).nextED

/-- The loop of `ohci_bulk_xfer`, with `left` bytes to go and the descriptors so far; it ends early
where none is left. -/
def bulkTds (b : UnitBase) (utr ed : U32) (out : Bool) (left : Nat) (buff : U32) (tds : List U32)
    (s : Ohci) : Ohci × List U32 × Bool :=
  let info := (tdCc ||| tdR ||| (if out then tdDpOut else tdDpIn) ||| tdTypeBulk) &&& ~~~((1 : U32) <<< 25)
  let xferLen := if left > 4096 then 4096 else left
  let td := s.allocTd b utr
  if td.1 = 0 then (td.2, tds, false)
  else
    let s := td.2.writeTd td.1 info buff (BitVec.ofNat 32 xferLen)
    let s := s.setTd td.1 fun d => { d with ed := ed }
    let s := s.setUtr utr fun u => { u with tdCnt := u.tdCnt + 1 }
    if _more : left - xferLen > 0 then
      bulkTds b utr ed out (left - xferLen) (buff + BitVec.ofNat 32 xferLen) (tds ++ [td.1]) s
    else (s, tds ++ [td.1], true)
  termination_by left
  decreasing_by split <;> omega

/-- The descriptors of a transfer that could not be completed, and its endpoint descriptor, are
freed. -/
def memOut (b : UnitBase) (s : Ohci) (tds : List U32) (ed : U32) : Ohci :=
  (tds.foldl (freeTd b) s).freeEd b ed

/-- `ohci_bulk_xfer`; nothing comes back where the bulk list does not end within the turns. -/
def bulkXfer (b : UnitBase) (turns : Nat) (s : Ohci) (utr : U32) : Option (Ohci × Int) := do
  let u := s.utrs utr
  let ep := u.ep
  let info := edMakeInfo (s.udevs u.udev) (s.eps ep)
  let listed ← s.findEd info turns s.hcBulkHeadED
  if listed ≠ 0 ∧ (s.eds listed).headP &&& ~~~0xf ≠ (s.eds listed).tailP &&& ~~~0xf then
    some (s, usbhErrOhciEpBusy)
  else
    let isNewED : Bool := listed = 0
    let ed := if isNewED then s.allocEd b else (listed, s)
    if ed.1 = 0 then some (ed.2, usbhErrMemoryOut)
    else
      let s := if isNewED then
          ed.2.setEd ed.1 fun e => { e with info := info, tds := [], headBits := 0 }
        else ed.2
      let s := s.setEp ep fun e => { e with hwPipe := ed.1 }
      let s := s.setUtr utr fun u => { u with tdCnt := 0 }
      let out : Bool := (s.eps ep).bEndpointAddress &&& epAddrDirMask = epAddrDirOut
      let filled := bulkTds b utr ed.1 out u.dataLen.toNat u.buff [] s
      let s := filled.1
      if filled.2.2 = false then some (s.memOut b filled.2.1 ed.1, usbhErrMemoryOut)
      else
        let s := s.setUtr utr fun u => { u with status := 0 }
        let s := s.setEd ed.1 fun e => { e with tds := filled.2.1, headBits := e.headBits &&& 0x2 }
        let s := if isNewED then
            { s.setEd ed.1 fun e => { e with headBits := 0, nextED := s.hcBulkHeadED } with
              hcBulkHeadED := ed.1 }
          else s
        some ({ s with hcControl := s.hcControl ||| usbhHcControlBleMsk }, 0)

/-- `ohci_int_xfer` behind its allocations: `td` is the dummy descriptor to fill, `tdNew` the next. -/
def startInt (s : Ohci) (utr ied ed td tdNew : U32) (isNewED : Bool) : Ohci :=
  let u := s.utrs utr
  let s := s.setEp u.ep fun e => { e with hwPipe := ed }
  let out := (s.eps u.ep).bEndpointAddress &&& epAddrDirMask = epAddrDirOut
  let info := tdCc ||| tdR ||| (if out then tdDpOut else tdDpIn) ||| tdTypeInt
  let info := info &&& ~~~((1 : U32) <<< 25) ||| (s.tds td).info &&& (1 : U32) <<< 25
  let s := s.writeTd td info u.buff u.dataLen
  let s := s.setTd td fun d => { d with ed := ed, utr := utr }
  let s := s.setUtr utr fun u => { u with tdCnt := 1, status := 0 }
  let s := s.setEd ed fun e => { e with tds := e.tds ++ [tdNew], tailP := tdNew }
  let s := if isNewED then
      let s := s.setEd ed fun e => { e with nextED := (s.eds ied).nextED }
      s.setEd ied fun e => { e with nextED := ed }
    else s
  { s with hcControl := s.hcControl ||| usbhHcControlPleMsk }

/-- `ohci_int_xfer`; nothing comes back where the list does not end within the turns, or its
descriptor has no dummy. -/
def intXfer (b : UnitBase) (turns : Nat) (s : Ohci) (utr : U32) : Option (Ohci × Int) := do
  let u := s.utrs utr
  let ep := s.eps u.ep
  if u.dataLen > 64 then some (s, usbhErrInvalidParam)
  else
    let tdNew := s.allocTd b utr
    if tdNew.1 = 0 then some (tdNew.2, usbhErrMemoryOut)
    else
      let s := tdNew.2
      let ied := s.intTreeHead ep.bInterval.toNat
      let info := edMakeInfo (s.udevs u.udev) ep
      let listed ← s.findEd info turns ied
      if listed = 0 then
        let ed := s.allocEd b
        if ed.1 = 0 then some (ed.2, usbhErrMemoryOut)
        else
          let s := ed.2.setEd ed.1 fun e =>
            { e with info := info, tds := [], headBits := 0, bInterval := ep.bInterval }
          let td := s.allocTd b 0
          if td.1 = 0 then some ((td.2.freeEd b ed.1).freeTd b tdNew.1, usbhErrMemoryOut)
          else
            let s := td.2.setEd ed.1 fun e => { e with tds := [td.1], tailP := td.1 }
            some (s.startInt utr ied ed.1 td.1 tdNew.1 true, 0)
      else
        let td := (s.eds listed).tailP &&& ~~~0xf
        if td = 0 then none
        else some (s.startInt utr ied listed td tdNew.1 false, 0)

/-- One turn of the loop of `ohci_iso_xfer`, on a descriptor it got. -/
def fillIsoTd (s : Ohci) (utr ed td : U32) (i : Nat) : Ohci :=
  let u := s.utrs utr
  let e := s.eds ed
  let s := s.setTd td fun d => { d with
    info := tdCc ||| tdTypeIso ||| e.nextSf.setWidth 32
    cbp := u.isoBuff i &&& ~~~0xfff
    be := u.isoBuff i + (u.isoXlen i).setWidth 32 - 1
    psw := 0xe000 ||| u.isoBuff i &&& 0xfff
    ed := ed }
  let s := s.setEd ed fun e =>
    { e with nextSf := e.nextSf + BitVec.ofNat 16 (getOhciInterval e.bInterval.toNat) }
  s.setUtr utr fun u => { u with tdCnt := u.tdCnt + 1 }

/-- The loop of `ohci_iso_xfer` for `n` packets from `i` on; it ends early where no descriptor is
left. -/
def isoTds (b : UnitBase) (utr ed : U32) : Nat → Nat → List U32 → Ohci → Ohci × List U32 × Bool
  | 0, _, tds, s => (s, tds, true)
  | n + 1, i, tds, s =>
    let s := s.setUtr utr fun u =>
      { u with isoStatus := Function.update u.isoStatus i usbhErrNotAccess1 }
    let td := s.allocTd b utr
    if td.1 = 0 then (td.2, tds, false)
    else isoTds b utr ed n (i + 1) (tds ++ [td.1]) (td.2.fillIsoTd utr ed td.1 i)

/-- `ohci_iso_xfer` before its loop: where the packets start. -/
def beginIso (s : Ohci) (utr ed : U32) : Ohci :=
  let s := if (s.utrs utr).bIsoNewSched then
      s.setEd ed fun e => { e with nextSf := s.frameNo + ohciIsoDelay }
    else s
  s.setUtr utr fun u => { u with tdCnt := 0, isoSf := (s.eds ed).nextSf }

/-- `ohci_iso_xfer`; nothing comes back where the list does not end within the turns. -/
def isoXfer (b : UnitBase) (turns : Nat) (s : Ohci) (utr : U32) : Option (Ohci × Int) := do
  let u := s.utrs utr
  let ep := s.eps u.ep
  let ied := s.intTreeHead ep.bInterval.toNat
  let info := edMakeInfo (s.udevs u.udev) ep
  let listed ← s.findEd info turns ied
  let isNewED : Bool := listed = 0
  let ed := if isNewED then s.allocEd b else (listed, s)
  if ed.1 = 0 then some (ed.2, usbhErrMemoryOut)
  else
    let s := if isNewED then
        ed.2.setEd ed.1 fun e =>
          { e with info := info, tds := [], headBits := 0, bInterval := ep.bInterval }
      else ed.2.setEp u.ep fun e => { e with hwPipe := ed.1 }
    let filled := isoTds b utr ed.1 ifPerUtr 0 [] (s.beginIso utr ed.1)
    let s := filled.1
    if filled.2.2 = false then some (s.memOut b filled.2.1 ed.1, usbhErrMemoryOut)
    else
      let s := s.setUtr utr fun u => { u with status := 0 }
      let s := s.setEd ed.1 fun e =>
        if e.headP = 0 then { e with tds := filled.2.1, headBits := e.headBits &&& 0x2 }
        else { e with tds := e.tds ++ filled.2.1 }
      let s := if isNewED then
          let s := s.setEd ed.1 fun e => { e with nextED := (s.eds ied).nextED }
          s.setEd ied fun e => { e with nextED := ed.1 }
        else s
      some ({ s with hcControl := s.hcControl ||| usbhHcControlPleMsk ||| usbhHcControlIeMsk }, 0)

end Ohci

end NuMakerMA35
