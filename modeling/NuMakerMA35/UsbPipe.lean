import NuMakerMA35.Usb

namespace NuMakerMA35

def usbhErrTimeout : Int := -203

def usbEpAttrControl : BitVec 8 := 0x00
def usbEpAttrIsoc : BitVec 8 := 0x01
def usbEpAttrBulk : BitVec 8 := 0x02
def usbEpAttrInt : BitVec 8 := 0x03
def usbDirMask : BitVec 8 := 0x80
def usbDirIn : BitVec 8 := 0x80
def usbhPidSetup : BitVec 8 := 0x00
def usbhPidData : BitVec 8 := 0x01
def usbReqTypeDirIn : BitVec 8 := 0x80
def usbReqSetAddress : BitVec 8 := 0x05
def usbReqSetConfiguration : BitVec 8 := 0x09
def reqTypeStdDev : BitVec 8 := 0x00

def pktBufSize : Nat := 512

structure Urequest where
  requestType : BitVec 8
  bRequest : BitVec 8
  wValue : BitVec 16
  wIndex : BitVec 16
  wLength : BitVec 16

def Urequest.read (bytes : Nat → BitVec 8) : Urequest where
  requestType := bytes 0
  bRequest := bytes 1
  wValue := bytes 3 ++ bytes 2
  wIndex := bytes 5 ++ bytes 4
  wLength := bytes 7 ++ bytes 6

def Urequest.isIn (q : Urequest) : Bool := q.requestType &&& usbReqTypeDirIn ≠ 0

structure PipeBuf where
  bytes : Nat → BitVec 8
  top : Nat

def PipeBuf.put (p : PipeBuf) (n : Nat) (src : Nat → BitVec 8) : PipeBuf where
  bytes := fun i => if i < n then src i else p.bytes i
  top := max p.top n

/-- What becomes of a transfer: the library's answer, whether it is done before the timeout, its
status and length, and the data that moved over the bus. -/
structure BusReply where
  submit : Int
  done : Bool
  status : Int
  xferLen : U32
  moved : Nat
  data : Nat → BitVec 8

/-- What the library promises of a transfer of so many bytes. -/
structure BusReply.Sound (r : BusReply) (len : Nat) : Prop where
  moved : r.moved ≤ len
  xferLen : r.done = true → r.status = 0 → r.xferLen.toNat = r.moved

inductive UpipeStatus where
  | ok
  | stall
  | error
  deriving DecidableEq

/-- Where a transfer's data go: the packet buffer, the caller's one, or `NULL`. -/
inductive XferBuf where
  | pkt
  | caller
  | null
  deriving DecidableEq

/-- The device of a pipe, the request and the length kept for it, the buffers and the pipe's status;
`wire` is what the last transfer to a buffer moved. -/
structure PipeState where
  udev : Bool
  devNum : BitVec 8
  curConf : BitVec 8
  bEnumDone : Bool
  setup : Urequest
  sent : U32
  pktBuf : PipeBuf
  buffer : PipeBuf
  status : UpipeStatus
  wire : Nat × (Nat → BitVec 8)

/-- The arguments of a call; `portCtrl` and `portDev` tell whether the pipe's port has an entry. -/
structure PipeCall where
  portCtrl : Bool
  portDev : Bool
  bEndpointAddress : BitVec 8
  bmAttributes : BitVec 8
  token : BitVec 8
  hasBuffer : Bool
  nbytes : U32

/-- The library's answers in a call: whether `alloc_utr` gives one, and the replies to transfers. -/
structure UsbAnswers where
  utr : Bool
  replies : List BusReply

def PipeCall.isIn (c : PipeCall) : Bool := c.bEndpointAddress &&& usbDirMask = usbDirIn

def PipeCall.through (c : PipeCall) : Bool := c.hasBuffer && c.nbytes ≠ 0

def PipeCall.bufferNonch (c : PipeCall) : XferBuf :=
  if c.through then .pkt else if c.hasBuffer then .caller else .null

def BusReply.usbhCtrlXfer (r : BusReply) : Int × U32 :=
  if r.submit < 0 then (r.submit, 0)
  else if r.done = false then (usbhErrTimeout, 0)
  else (r.status, if r.status = 0 then r.xferLen else 0)

def BusReply.ctrlRet (r : BusReply) : Int :=
  let out := r.usbhCtrlXfer
  if out.1 < 0 then out.1 else out.2.toInt

namespace PipeState

def unwritten (s : PipeState) : PipeState :=
  { s with
    pktBuf := { s.pktBuf with top := 0 }
    buffer := { s.buffer with top := 0 }
    wire := (0, s.wire.2) }

def receive (s : PipeState) (r : BusReply) : XferBuf → PipeState
  | .pkt => { s with pktBuf := s.pktBuf.put r.moved r.data, wire := (r.moved, r.data) }
  | .caller => { s with buffer := s.buffer.put r.moved r.data, wire := (r.moved, r.data) }
  | .null => s

def copyOut (s : PipeState) (n : Nat) : XferBuf → PipeState
  | .pkt => { s with buffer := s.buffer.put n s.pktBuf.bytes }
  | .caller => { s with buffer := s.buffer.put n s.buffer.bytes }
  | .null => s

def nuCtrlXfer (s : PipeState) (setup : Urequest) (buffer : XferBuf) (r : BusReply) : PipeState × Int :=
  let s := if setup.isIn then s.receive r buffer else s
  if r.usbhCtrlXfer.1 < 0 then (s, r.ctrlRet)
  else
    let std : Bool := setup.requestType &&& 0x60 = reqTypeStdDev
    let s := if setup.bRequest = usbReqSetAddress ∧ std then
        { s with devNum := setup.wValue.setWidth 8 }
      else s
    let s := if setup.bRequest = usbReqSetConfiguration ∧ std then
        { s with curConf := setup.wValue.setWidth 8, bEnumDone := true }
      else s
    (s, r.ctrlRet)

/-- `nu_int_xfer`, which tries again after a timeout; nothing comes back where it never ends. -/
def nuIntXfer (isIn : Bool) (buffer : XferBuf) : List BusReply → PipeState → Option (PipeState × Int)
  | [], _ => none
  | r :: replies, s =>
    let s := if isIn then s.receive r buffer else s
    if r.submit < 0 then some (s, r.submit)
    else if r.done then some (s, 0)
    else nuIntXfer isIn buffer replies s

def report (s : PipeState) (r : BusReply) : PipeState :=
  { s with
    status :=
      if r.done = false then .error
      else if r.status = 0 then .ok
      else if r.status = usbhErrStall then .stall
      else .error }

def exit (s : PipeState) (c : PipeCall) : PipeState :=
  if c.through ∧ c.isIn then s.copyOut c.nbytes.toNat .pkt else s

/-- The control transfers of `nu_pipe_xfer`; nothing comes back where its assertion fails. -/
def ctrlPipeXfer (s : PipeState) (c : PipeCall) (replies : List BusReply) : Option (PipeState × Int) :=
  if c.token = usbhPidSetup then
    let s := { s with sent := 0 }
    match c.bufferNonch, replies.head? with
    | .null, _ => none
    | buffer, r =>
      let setup := Urequest.read (if buffer = .pkt then s.pktBuf.bytes else s.buffer.bytes)
      if setup.isIn then some ({ s with setup := setup }, c.nbytes.toInt)
      else
        r.map fun r =>
          let out := s.nuCtrlXfer setup .null r
          if out.2 ≠ (setup.wLength.toNat : Int) then (out.1.exit c, -1) else (out.1, c.nbytes.toInt)
  else if c.bufferNonch ≠ .null ∧ c.isIn then
    if s.sent = 0 then
      replies.head?.map fun r =>
        let out := s.nuCtrlXfer s.setup c.bufferNonch r
        let s := { out.1 with sent := BitVec.ofInt 32 out.2 }
        if out.2 > 0 then (s.copyOut out.2.toNat c.bufferNonch, c.nbytes.toInt) else (s.exit c, -1)
    else if s.sent < c.nbytes then some (s.exit c, -1)
    else
      let s := { s with sent := s.sent - c.nbytes }
      if c.nbytes.toInt ≤ 0 then some (s.exit c, -1) else some (s, c.nbytes.toInt)
  else some (s, c.nbytes.toInt)

def utrPipeXfer (s : PipeState) (c : PipeCall) (a : UsbAnswers) : Option (PipeState × Int) :=
  if a.utr = false then some (s.exit c, -1)
  else if c.bmAttributes = usbEpAttrBulk then
    a.replies.head?.map fun r =>
      let s := if c.isIn then s.receive r c.bufferNonch else s
      ((s.report r).exit c, r.xferLen.toInt)
  else if c.bmAttributes = usbEpAttrInt then
    (s.nuIntXfer c.isIn c.bufferNonch a.replies).map fun out =>
      (out.1.exit c, if out.2 < 0 then -1 else c.nbytes.toInt)
  else if c.bmAttributes = usbEpAttrIsoc then some (s.exit c, -1)
  else some ({ s with status := .error }.exit c, 0)

/-- `nu_pipe_xfer`; nothing comes back where it reads through `NULL`. -/
def nuPipeXfer (s : PipeState) (c : PipeCall) (a : UsbAnswers) : Option (PipeState × Int) :=
  let s := s.unwritten
  if c.portCtrl = false then some (s, -1)
  else if c.portDev = false then none
  else if s.udev = false then some (s, -1)
  else
    let s := if c.through ∧ c.isIn = false then
        { s with pktBuf := s.pktBuf.put c.nbytes.toNat s.buffer.bytes }
      else s
    if c.bmAttributes = usbEpAttrControl then s.ctrlPipeXfer c a.replies else s.utrPipeXfer c a

end PipeState

end NuMakerMA35
