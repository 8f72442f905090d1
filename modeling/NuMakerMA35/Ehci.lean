import NuMakerMA35.Usb
import NuMakerMA35.UnitSource

namespace NuMakerMA35

def usbhErrEhciQhBusy : Int := -503

def qtdListEnd : U32 := 0x1
def qtdStsHalt : U32 := (1 : U32) <<< 6
def qtdStsActive : U32 := (1 : U32) <<< 7
def qtdPidOut : U32 := (0 : U32) <<< 8
def qtdPidIn : U32 := (1 : U32) <<< 8
def qtdPidSetup : U32 := (2 : U32) <<< 8
def qtdErrCounter : U32 := (3 : U32) <<< 10
def qtdIoc : U32 := (1 : U32) <<< 15
def qtdDt : U32 := (1 : U32) <<< 31

def qhHlnkQh (x : U32) : U32 := x &&& ~~~0x1f ||| 0x2
def qhNakRl : U32 := (4 : U32) <<< 28
def qhCtrlEpFlag : U32 := (1 : U32) <<< 27
def qhDtc : U32 := (1 : U32) <<< 14
def qhEpsFull : U32 := (0 : U32) <<< 12
def qhEpsLow : U32 := (1 : U32) <<< 12
def qhEpsHigh : U32 := (2 : U32) <<< 12
def qhMultPos : Nat := 30
def qhHubPortPos : Nat := 23
def qhHubAddrPos : Nat := 16
def qhCMaskMsk : U32 := 0xff00
def qhSMaskMsk : U32 := 0x00ff

def hsusbhUcmdrPsenMsk : U32 := (1 : U32) <<< 4
def hsusbhUcmdrAsenMsk : U32 := (1 : U32) <<< 5

structure Qtd where
  nextQTD : U32
  altNextQTD : U32
  token : U32
  bptr : Nat → U32
  utr : U32
  xferLen : U32
  qh : U32

structure Qh where
  hLink : U32
  chrst : U32
  cap : U32
  currQTD : U32
  olNextQTD : U32
  olAltNextQTD : U32
  olToken : U32
  olBptr : Nat → U32
  qtdList : List U32

/-- The pool, the structures at their addresses, the heads of the schedules and `UCMDR`. -/
structure Ehci extends UnitSource where
  qhs : U32 → Qh
  qtds : U32 → Qtd
  eps : U32 → EpInfo
  udevs : U32 → Udev
  utrs : U32 → Utr
  hQh : U32
  ghostQtd : U32
  iqh : Nat → U32
  ucmdr : U32

namespace Ehci

def setQh (s : Ehci) (a : U32) (f : Qh → Qh) : Ehci :=
  { s with qhs := Function.update s.qhs a (f (s.qhs a)) }

def setQtd (s : Ehci) (a : U32) (f : Qtd → Qtd) : Ehci :=
  { s with qtds := Function.update s.qtds a (f (s.qtds a)) }

def setEp (s : Ehci) (a : U32) (f : EpInfo → EpInfo) : Ehci :=
  { s with eps := Function.update s.eps a (f (s.eps a)) }

def take (s : Ehci) (alloc : UnitPool → Option (Nat × UnitPool)) : U32 × Ehci :=
  let unit := s.toUnitSource.take alloc
  (unit.1, { s with toUnitSource := unit.2 })

def allocQh (b : UnitBase) (s : Ehci) : U32 × Ehci :=
  let qh := s.take (allocEhciQH b)
  if qh.1 = 0 then qh
  else
    (qh.1, qh.2.setQh qh.1 fun _ =>
      ⟨0, 0, 0, qtdListEnd, qtdListEnd, qtdListEnd, qtdStsHalt, fun _ => 0, []⟩)

def allocQtd (b : UnitBase) (s : Ehci) (utr : U32) : U32 × Ehci :=
  let qtd := s.take (allocEhciQTD b)
  if qtd.1 = 0 then qtd
  else
    (qtd.1, qtd.2.setQtd qtd.1 fun _ =>
      ⟨qtdListEnd, qtdListEnd, 0x1197b7f, fun _ => 0, utr, 0, 0⟩)

def freeQh (b : UnitBase) (s : Ehci) (qh : U32) : Ehci :=
  { s with pool := freeEhciQH b s.pool qh.toNat }

def freeQtd (b : UnitBase) (s : Ehci) (qtd : U32) : Ehci :=
  { s with pool := freeEhciQTD b s.pool qtd.toNat }

def appendToQtdList (s : Ehci) (qh qtd : U32) : Ehci :=
  s.setQh qh fun q => { q with qtdList := q.qtdList ++ [qtd] }

/-- Port and address of the transaction translator: the way to the USB 2.0 hub. -/
def ttOf (port : BitVec 8) : List HubDev → Option (BitVec 8 × BitVec 8)
  | [] => none
  | hub :: hubs => if hub.speed = .high then some (port, hub.devNum) else ttOf hub.portNum hubs

def qhCap (d : Udev) : Option U32 :=
  if d.speed = .high then some 0x40000000
  else
    (ttOf d.portNum d.hubs).map fun tt =>
      (tt.1.setWidth 32 : U32) <<< qhHubPortPos ||| (tt.2.setWidth 32 : U32) <<< qhHubAddrPos

/-- `write_qh`; nothing comes back where a device that is not of high speed has no USB 2.0 hub. -/
def writeQh (s : Ehci) (udev : U32) (ep : Option EpInfo) (qh : U32) : Option Ehci := do
  let d := s.udevs udev
  let d := if ep.isNone ∧ d.bMaxPacketSize0 = 0 then
      { d with bMaxPacketSize0 := if d.speed = .low then 8 else 64 }
    else d
  let s := { s with udevs := Function.update s.udevs udev d }
  let chrst : U32 := match ep with
    | none =>
      let chrst := qhDtc ||| qhNakRl ||| d.bMaxPacketSize0.setWidth 32 <<< 16
      if d.speed ≠ .high then chrst ||| qhCtrlEpFlag else chrst
    | some ep =>
      qhNakRl ||| ep.wMaxPacketSize.setWidth 32 <<< 16 |||
        (ep.bEndpointAddress &&& 0xf).setWidth 32 <<< 8
  let chrst := chrst ||| match d.speed with
    | .low => qhEpsLow
    | .full => qhEpsFull
    | .high => qhEpsHigh
  let chrst := chrst ||| d.devNum.setWidth 32
  let cap ← qhCap d
  some (s.setQh qh fun q => { q with chrst := chrst, cap := cap })

def writeQtdBptr (s : Ehci) (qtd buffAddr xferLen : U32) : Ehci :=
  s.setQtd qtd fun q => { q with
    xferLen := xferLen
    bptr := fun i =>
      if i = 0 then buffAddr
      else (buffAddr + 0x1000 &&& ~~~0xfff) + BitVec.ofNat 32 ((i - 1) * 0x1000) }

def linkQh (s : Ehci) (head qh : U32) : Ehci :=
  let s := s.setQh qh fun q => { q with hLink := (s.qhs head).hLink }
  s.setQh head fun q => { q with hLink := qhHlnkQh qh }

/-- The queue head of the endpoint, or a new one; zero for `NULL`. -/
def pipeQh (b : UnitBase) (s : Ehci) (ep : U32) : U32 × Ehci :=
  if (s.eps ep).hwPipe = 0 then s.allocQh b else ((s.eps ep).hwPipe, s)

def ctrlStages (s : Ehci) (utr qh setup data status : U32) (isNewQh : Bool) : Ehci :=
  let u := s.utrs utr
  let out := u.bmRequestType &&& 0x80 = reqTypeOut
  let s := s.setQtd setup fun q => { q with qh := qh }
  let s := s.writeQtdBptr setup (utr + 4) 8
  let s := s.appendToQtdList qh setup
  let s := s.setQtd setup fun q =>
    { q with token := (8 : U32) <<< 16 ||| qtdErrCounter ||| qtdPidSetup ||| qtdStsActive }
  let s :=
    if u.dataLen > 0 then
      let s := s.setQtd setup fun q => { q with nextQTD := data }
      let s := s.setQtd data fun q => { q with nextQTD := status }
      let token := qtdErrCounter ||| (if out then qtdPidOut else qtdPidIn) ||| qtdStsActive
      let s := s.setQtd data fun q => { q with qh := qh }
      let s := s.writeQtdBptr data u.buff u.dataLen
      let s := s.appendToQtdList qh data
      s.setQtd data fun q => { q with token := qtdDt ||| u.dataLen <<< 16 ||| token }
    else s.setQtd setup fun q => { q with nextQTD := status }
  let s := s.setQtd status fun q => { q with nextQTD := s.ghostQtd, altNextQTD := qtdListEnd }
  let token := qtdErrCounter ||| (if out then qtdPidIn else qtdPidOut) ||| qtdStsActive
  let s := s.setQtd status fun q => { q with qh := qh }
  let s := s.appendToQtdList qh status
  let s := s.setQtd status fun q => { q with token := qtdDt ||| qtdIoc ||| token }
  let s := s.setQh qh fun q =>
    { q with currQTD := 0, olNextQTD := setup, olAltNextQTD := qtdListEnd, olToken := 0 }
  let s := if isNewQh then s.linkQh s.hQh qh else s
  { s with ucmdr := s.ucmdr ||| hsusbhUcmdrAsenMsk }

def allocDataQtd (b : UnitBase) (s : Ehci) (utr : U32) : U32 × Ehci :=
  if (s.utrs utr).dataLen > 0 then s.allocQtd b utr else (0, s)

/-- `ehci_ctrl_xfer` from its descriptors on; nothing comes back where it writes through `NULL`. -/
def ctrlQtds (b : UnitBase) (s : Ehci) (utr qh : U32) (isNewQh : Bool) : Option (Ehci × Int) :=
  let setup := s.allocQtd b utr
  let data := setup.2.allocDataQtd b utr
  let status := data.2.allocQtd b utr
  if status.1 = 0 then
    let s := if setup.1 ≠ 0 then status.2.freeQtd b setup.1 else status.2
    let s := if data.1 ≠ 0 then s.freeQtd b data.1 else s
    some (s, usbhErrMemoryOut)
  else if setup.1 = 0 ∨ (s.utrs utr).dataLen > 0 ∧ data.1 = 0 then none
  else some (status.2.ctrlStages utr qh setup.1 data.1 status.1 isNewQh, 0)

def ctrlXfer (b : UnitBase) (s : Ehci) (utr : U32) : Option (Ehci × Int) := do
  let u := s.utrs utr
  let ep0 := (s.udevs u.udev).ep0
  if u.dataLen > 0 ∧ u.buff + u.dataLen > (u.buff &&& ~~~0xfff) + 0x5000 then
    some (s, usbhErrBuffOverrun)
  else if (s.eps ep0).hwPipe ≠ 0 ∧ (s.qhs (s.eps ep0).hwPipe).qtdList ≠ [] then
    some (s, usbhErrEhciQhBusy)
  else
    let isNewQh : Bool := (s.eps ep0).hwPipe = 0
    let qh := s.pipeQh b ep0
    if qh.1 = 0 then some (qh.2, usbhErrMemoryOut)
    else
      let s := if isNewQh then qh.2.setEp ep0 fun e => { e with hwPipe := qh.1 } else qh.2
      let s ← s.writeQh u.udev none qh.1
      let s := { s with utrs := Function.update s.utrs utr { s.utrs utr with ep := ep0 } }
      s.ctrlQtds b utr qh.1 isNewQh

def fillBulkQtd (s : Ehci) (qh pre qtd buff : U32) (out : Bool) (xferLen : Nat) (last : Bool) : Ehci :=
  let token := qtdErrCounter ||| (if out then qtdPidOut else qtdPidIn) ||| qtdStsActive
  let len := BitVec.ofNat 32 xferLen
  let s := s.setQtd qtd fun q =>
    { q with qh := qh, nextQTD := s.ghostQtd, altNextQTD := qtdListEnd }
  let s := s.writeQtdBptr qtd buff len
  let s := s.appendToQtdList qh qtd
  let s := s.setQtd qtd fun q => { q with token := len <<< 16 ||| token }
  let s :=
    if last then
      s.setQtd qtd fun q => { q with token := q.token ||| qtdIoc, nextQTD := s.ghostQtd }
    else s
  if pre ≠ 0 then s.setQtd pre fun q => { q with nextQTD := qtd } else s

/-- The loop of `ehci_bulk_xfer`, with `left` bytes to go; it ends early where no descriptor is left. -/
def bulkQtds (b : UnitBase) (utr qh : U32) (out : Bool) (left : Nat) (buff pre : U32) (s : Ehci) :
    Ehci × Bool :=
  if _none : left = 0 then (s, true)
  else
    let qtd := s.allocQtd b utr
    if qtd.1 = 0 then (qtd.2, false)
    else
      let xferLen := if left > 0x4000 then 0x4000 else left
      let s := qtd.2.fillBulkQtd qh pre qtd.1 buff out xferLen (left - xferLen = 0)
      bulkQtds b utr qh out (left - xferLen) (buff + BitVec.ofNat 32 xferLen) qtd.1 s
  termination_by left
  decreasing_by split <;> omega

def startBulkQh (s : Ehci) (ep qh qtd : U32) : Ehci :=
  let s := s.setQh qh fun q =>
    { q with
      olBptr := (s.qtds qtd).bptr
      currQTD := qtd
      olToken := if (s.eps ep).bToggle ≠ 0 then qtdDt else 0 }
  s.linkQh s.hQh qh

/-- `ehci_bulk_xfer` behind its loop; nothing comes back where it reads through `NULL`. -/
def startBulk (s : Ehci) (ep qh : U32) (isNewQh : Bool) : Option (Ehci × Int) :=
  let qtd := (s.qhs qh).qtdList.headD 0
  let s := s.setQh qh fun q => { q with olNextQTD := qtd }
  if isNewQh ∧ qtd = 0 then none
  else
    let s := if isNewQh then s.startBulkQh ep qh qtd else s
    some ({ s with ucmdr := s.ucmdr ||| hsusbhUcmdrAsenMsk }, 0)

def bulkXfer (b : UnitBase) (s : Ehci) (utr : U32) : Option (Ehci × Int) := do
  let u := s.utrs utr
  let ep := u.ep
  if (s.eps ep).hwPipe ≠ 0 ∧ (s.qhs (s.eps ep).hwPipe).qtdList ≠ [] then
    some (s, usbhErrEhciQhBusy)
  else
    let isNewQh : Bool := (s.eps ep).hwPipe = 0
    let qh := s.pipeQh b ep
    if qh.1 = 0 then some (qh.2, usbhErrMemoryOut)
    else
      let s ← if isNewQh then qh.2.writeQh u.udev (s.eps ep) qh.1 else some qh.2
      let s := if isNewQh then s.setEp ep fun e => { e with hwPipe := qh.1 } else s
      let out : Bool := (s.eps ep).bEndpointAddress &&& epAddrDirMask = epAddrDirOut
      let filled := bulkQtds b utr qh.1 out u.dataLen.toNat u.buff 0 s
      let s := filled.1
      if filled.2 = false then
        let s := (s.qhs qh.1).qtdList.foldl (freeQtd b) s
        let s := if isNewQh then (s.freeQh b qh.1).setEp ep fun e => { e with hwPipe := 0 } else s
        some (s, usbhErrMemoryOut)
      else s.startBulk ep qh.1 isNewQh

/-- `make_int_s_mask`; its interval doubles in 32 bits. -/
def makeIntSMask (bInterval : BitVec 8) : U32 :=
  let interval : U32 := BitVec.ofNat 32 (2 ^ (bInterval.toNat - 1))
  if interval.toInt < 2 then 0xff
  else if interval.toInt < 4 then 0x55
  else if interval.toInt < 8 then 0x22
  else (0x1 : U32) <<< (interval.toNat.log2 % 8)

/-- `get_int_tree_head_node`: the head for the first power of two beyond the interval in frames. -/
def intTreeHead (s : Ehci) (interval : Nat) : U32 :=
  match (List.range 10).find? fun i => interval / 8 / 2 ^ (i + 1) = 0 with
  | some i => s.iqh i
  | none => s.iqh 10

def writeIntQh (s : Ehci) (udev ep qh : U32) : Option Ehci := do
  let s ← s.writeQh udev (s.eps ep) qh
  let s := s.setQh qh fun q =>
    { q with
      chrst := q.chrst &&& ~~~0xf0000000
      cap := if (s.udevs udev).speed = .high then
          (0x1 : U32) <<< qhMultPos ||| q.cap &&& 0xff ||| makeIntSMask (s.eps ep).bInterval
        else (0x1 : U32) <<< qhMultPos ||| q.cap &&& ~~~(qhCMaskMsk ||| qhSMaskMsk) ||| 0x7802 }
  some (s.setEp ep fun e => { e with hwPipe := qh })

def startIntQh (s : Ehci) (udev ep qh qtd : U32) : Ehci :=
  let s := s.setQh qh fun q =>
    { q with
      olBptr := (s.qtds qtd).bptr
      currQTD := qtd
      olToken := (s.qtds qtd).token }
  let interval := (s.eps ep).bInterval.toNat
  s.linkQh (s.intTreeHead (if (s.udevs udev).speed = .high then interval else interval * 8)) qh

def intXfer (b : UnitBase) (s : Ehci) (utr : U32) : Option (Ehci × Int) := do
  let u := s.utrs utr
  let ep := u.ep
  if (s.eps ep).hwPipe ≠ 0 ∧ (s.qhs (s.eps ep).hwPipe).qtdList ≠ [] then
    some (s, usbhErrEhciQhBusy)
  else
    let isNewQh : Bool := (s.eps ep).hwPipe = 0
    let qh := s.pipeQh b ep
    if qh.1 = 0 then some (qh.2, usbhErrMemoryOut)
    else
      let s ← if isNewQh then qh.2.writeIntQh u.udev ep qh.1 else some qh.2
      let qtd := s.allocQtd b utr
      let s := qtd.2
      if qtd.1 = 0 then
        let s := if isNewQh then (s.freeQh b qh.1).setEp ep fun e => { e with hwPipe := 0 } else s
        some (s, usbhErrMemoryOut)
      else
        let out := (s.eps ep).bEndpointAddress &&& epAddrDirMask = epAddrDirOut
        let token := qtdErrCounter ||| (if out then qtdPidOut else qtdPidIn) ||| qtdStsActive
        let s := s.setQtd qtd.1 fun q =>
          { q with qh := qh.1, nextQTD := qtdListEnd, altNextQTD := qtdListEnd }
        let s := s.writeQtdBptr qtd.1 u.buff u.dataLen
        let s := s.appendToQtdList qh.1 qtd.1
        let s := s.setQtd qtd.1 fun q => { q with token := qtdIoc ||| u.dataLen <<< 16 ||| token }
        let s := s.setQh qh.1 fun q => { q with olNextQTD := qtd.1 }
        let s := if isNewQh then s.startIntQh u.udev ep qh.1 qtd.1 else s
        some ({ s with ucmdr := s.ucmdr ||| hsusbhUcmdrPsenMsk }, 0)

end Ehci

end NuMakerMA35
