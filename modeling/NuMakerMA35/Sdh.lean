import NuMakerMA35.Logged
import NuMakerMA35.BitUtil

namespace NuMakerMA35

inductive SdhReg where
  | sdmasa | sdmaBufBdary | xferBlockSize | blockCnt | argument | xferMode | cmd
  | resp01 | resp23 | resp45 | resp67 | pstate | dmaSel | toutCnt | swRst
  | normalIntStat | errorIntStat | dmaInterrupt | cardIsEmmc | disableDataCrcChk
  deriving DecidableEq, Repr

inductive SdhField where
  | xferComplete | errInterrupt | dmaInterrupt
  deriving DecidableEq, Repr

inductive SdhAccess where
  | read (r : SdhReg) (v : U32)
  | test (f : SdhField) (v : Bool)
  | write (r : SdhReg) (v : U32)
  deriving DecidableEq, Repr

structure SdhBus where
  read : List SdhAccess → SdhReg → U32
  test : List SdhAccess → SdhField → Bool

inductive SdhFault where
  | assertion
  deriving DecidableEq, Repr

abbrev Sdh : Type → Type := Logged SdhFault SdhAccess

def SdhBus.get (bus : SdhBus) (r : SdhReg) : Sdh U32 := fun log =>
  (.ok (bus.read log r), log ++ [.read r (bus.read log r)])

def SdhBus.ask (bus : SdhBus) (f : SdhField) : Sdh Bool := fun log =>
  (.ok (bus.test log f), log ++ [.test f (bus.test log f)])

def sdhWrite (r : SdhReg) (v : U32) : Sdh Unit := .issue (.write r v) fun _ => ()

structure MmcCmd where
  cmdidx : BitVec 16
  respType : U32
  cmdarg : U32
  deriving DecidableEq, Repr

/-- `dest` and `src` are one field. -/
structure MmcData where
  dest : U32
  flags : U32
  blocks : U32
  blocksize : U32
  deriving DecidableEq, Repr

def dataDirWrite : U32 := 0x1
def dataDirRead : U32 := 0x2

def mmcRspPresent : U32 := 0x1
def mmcRsp136 : U32 := 0x2
def mmcRspCrc : U32 := 0x4
def mmcRspBusy : U32 := 0x8
def mmcRspOpcode : U32 := 0x10

def mmcCmdStopTransmission : BitVec 16 := 12

def nuSdhGetCmdResptype (rtRespType : U32) : U32 :=
  if rtRespType = 0 then 0
  else if rtRespType = 1 then mmcRspPresent ||| mmcRspCrc ||| mmcRspOpcode
  else if rtRespType = 2 then mmcRspPresent ||| mmcRspCrc ||| mmcRspOpcode ||| mmcRspBusy
  else if rtRespType = 3 then mmcRspPresent ||| mmcRsp136 ||| mmcRspCrc
  else if rtRespType = 4 then mmcRspPresent
  else if rtRespType = 5 then mmcRspPresent
  else if rtRespType = 6 then mmcRspPresent ||| mmcRspCrc ||| mmcRspOpcode
  else if rtRespType = 7 then mmcRspPresent ||| mmcRspCrc ||| mmcRspOpcode
  else if rtRespType = 8 then mmcRspPresent ||| mmcRspCrc ||| mmcRspOpcode
  else 0xffffffff

def sdhCmdMaxTimeout : Nat := 3200
def sdhCmdDefaultTimeout : Nat := 100

/-- The polls of `SD_GetBusStatus` with the limit doubled as it is reached; there is a last one
long before the first argument is used up. -/
def sdGetBusStatus (bus : SdhBus) (mask : U32) : Nat → Nat → Nat → Sdh Int
  | 0, _, _ => return -1
  | n + 1, time, cmdTimeout => do
    if (← bus.get .pstate) &&& mask = 0 then return 0
    if time < cmdTimeout then sdGetBusStatus bus mask n (time + 1) cmdTimeout
    else if 2 * cmdTimeout ≤ sdhCmdMaxTimeout then
      sdGetBusStatus bus mask n (time + 1) (cmdTimeout + cmdTimeout)
    else return -1

def sdhResetCmd : U32 := 0x2
def sdhResetData : U32 := 0x4

def sdhResetWait (bus : SdhBus) (mask : U32) : Nat → Sdh Unit
  | 0 => do
    let _ ← bus.get .swRst
    return ()
  | timeout + 1 => do
    if (← bus.get .swRst) &&& mask = 0 then return ()
    sdhResetWait bus mask timeout

def sdhReset (bus : SdhBus) (mask : U32) : Sdh Unit := do
  let old ← bus.get .swRst
  sdhWrite .swRst (old ||| mask)
  sdhResetWait bus mask 100

/-- The four words of the response, those of a long one shifted by the byte of the CRC. -/
def nuSdhSendCommanddone (bus : SdhBus) (cmd : MmcCmd) : Sdh (List U32) := do
  if cmd.respType &&& mmcRsp136 ≠ 0 then
    let r67 ← bus.get .resp67
    let r45 ← bus.get .resp45
    let r23 ← bus.get .resp23
    let r01 ← bus.get .resp01
    return [r67 <<< 8 ||| r45 >>> 24, r45 <<< 8 ||| r23 >>> 24, r23 <<< 8 ||| r01 >>> 24, r01 <<< 8]
  else
    let r01 ← bus.get .resp01
    return [r01, 0, 0, 0]

/-- The next half megabyte, when the SDMA has come to its boundary. -/
def sdhDmaBoundary (bus : SdhBus) (startAddr : U32) : Sdh U32 := do
  if ← bus.ask .dmaInterrupt then
    sdhWrite .dmaInterrupt 1
    let next := (startAddr &&& ~~~(512 * 1024 - 1)) + 512 * 1024
    sdhWrite .sdmasa next
    return next
  else return startAddr

def nuSdhXferData (bus : SdhBus) : Nat → U32 → Sdh Int
  | 0, startAddr => do
    if ← bus.ask .xferComplete then return 0
    if ← bus.ask .errInterrupt then return -1
    let _ ← sdhDmaBoundary bus startAddr
    return -2
  | timeout + 1, startAddr => do
    if ← bus.ask .xferComplete then return 0
    if ← bus.ask .errInterrupt then return -1
    let startAddr ← sdhDmaBoundary bus startAddr
    nuSdhXferData bus timeout startAddr

def nuSdhXferTimeout : Nat := 1000000

def sdhCmdTimeout : Nat := 10000000

def sdhIntError : U32 := 0x8000

/-- The wait for a command: the status it ended with, or none after the time-out, which is only
noticed in the turn after the last. -/
def sdhWaitCommand (bus : SdhBus) (mask : U32) : Nat → Sdh (Option U32)
  | 0 => do
    let stat ← bus.get .normalIntStat
    if stat &&& sdhIntError ≠ 0 then return some stat
    return none
  | n + 1 => do
    let stat ← bus.get .normalIntStat
    if stat &&& sdhIntError ≠ 0 then return some stat
    if stat &&& mask = mask then return some stat
    sdhWaitCommand bus mask n

def sdhCommandMask (cmd : MmcCmd) (data : Option MmcData) : U32 :=
  if cmd.respType &&& mmcRspPresent ≠ 0 ∧ cmd.respType &&& mmcRsp136 = 0 ∧
      cmd.respType &&& mmcRspBusy ≠ 0 ∧ data.isSome = true then 0x3
  else 0x1

def sdhCommandFlags (cmd : MmcCmd) (data : Option MmcData) : U32 :=
  (if cmd.respType &&& mmcRspPresent = 0 then 0x0
    else if cmd.respType &&& mmcRsp136 ≠ 0 then 0x1
    else if cmd.respType &&& mmcRspBusy ≠ 0 then 0x3
    else 0x2) |||
  (if cmd.respType &&& mmcRspCrc ≠ 0 then 0x8 else 0) |||
  (if cmd.respType &&& mmcRspOpcode ≠ 0 then 0x10 else 0) |||
  (if data.isSome then 0x20 else 0)

def sdhSetupData (d : MmcData) : Sdh Unit := do
  sdhWrite .toutCnt 0xE
  sdhWrite .sdmasa d.dest
  sdhWrite .dmaSel 0
  sdhWrite .sdmaBufBdary 0x7
  sdhWrite .xferBlockSize d.blocksize
  sdhWrite .blockCnt d.blocks
  sdhWrite .xferMode (0x2 ||| (if 1 < d.blocks then 0x20 else 0) |||
    (if d.flags &&& dataDirRead ≠ 0 then 0x10 else 0) ||| 0x1)

def sdhSetup (cmd : MmcCmd) : Option MmcData → Sdh Unit
  | some d => sdhSetupData d
  | none => if cmd.respType &&& mmcRspBusy ≠ 0 then sdhWrite .toutCnt 0xE else return ()

def sdhClearStatus : Sdh Unit := do
  sdhWrite .normalIntStat 0xFFFF
  sdhWrite .errorIntStat 0xFFFF

/-- The error exit; `line` is the line of the source, which is the code of the error. -/
def sdhFail (bus : SdhBus) (line : Int) : Sdh (Int × List U32) := do
  sdhReset bus sdhResetCmd
  sdhReset bus sdhResetData
  return (line, [0, 0, 0, 0])

def sdhSendData (bus : SdhBus) : Option MmcData → Sdh Int
  | some d => nuSdhXferData bus nuSdhXferTimeout d.dest
  | none => return 0

/-- After the response: the data, and `ret` set to 0 whatever became of them. -/
def sdhAfterResponse (bus : SdhBus) (cmd : MmcCmd) (data : Option MmcData) :
    Sdh (Int × List U32) := do
  let response ← nuSdhSendCommanddone bus cmd
  let _ ← sdhSendData bus data
  let _ ← bus.get .errorIntStat
  sdhWrite .normalIntStat (sdhCommandMask cmd data)
  sdhClearStatus
  return (0, response)

/-- `nu_sdh_send_command`: its result and the response. What it only prints is left out. -/
def nuSdhSendCommand (bus : SdhBus) (cmd : MmcCmd) (data : Option MmcData) :
    Sdh (Int × List U32) := do
  let inhibit : U32 := if cmd.cmdidx = mmcCmdStopTransmission then 0x1 else 0x3
  let busy ← sdGetBusStatus bus inhibit (2 * sdhCmdMaxTimeout) 0 sdhCmdDefaultTimeout
  if busy ≠ 0 then sdhFail bus 260
  else
    sdhClearStatus
    sdhSetup cmd data
    sdhWrite .argument cmd.cmdarg
    sdhWrite .cmd ((cmd.cmdidx.setWidth 32 &&& 0xff) <<< 8 ||| (sdhCommandFlags cmd data &&& 0xff))
    let mask := sdhCommandMask cmd data
    match ← sdhWaitCommand bus mask (sdhCmdTimeout + 1) with
    | none => sdhFail bus 343
    | some stat =>
      if stat &&& (sdhIntError ||| mask) = mask then sdhAfterResponse bus cmd data
      else sdhFail bus 371

structure RtMmcsdCmd where
  cmdCode : U32
  arg : U32
  flags : U32
  deriving DecidableEq, Repr

structure RtMmcsdData where
  buf : U32
  flags : U32
  blksize : U32
  blks : U32
  deriving DecidableEq, Repr

structure RtMmcsdReq where
  cmd : Option RtMmcsdCmd
  data : Option RtMmcsdData
  stop : Option RtMmcsdCmd
  deriving DecidableEq, Repr

structure SdhHost where
  card : Option Nat
  cachebuf : U32
  deriving DecidableEq, Repr

def cardTypeMmc : Nat := 0

def sdhBuffSize : U32 := 512 * 1024

structure SdhDone where
  err : Int
  resp : List U32
  deriving DecidableEq, Repr

def RtMmcsdCmd.mmc (c : RtMmcsdCmd) : MmcCmd where
  cmdidx := c.cmdCode.setWidth 16
  respType := nuSdhGetCmdResptype (c.flags &&& 0xF)
  cmdarg := c.arg

/-- Data that is not aligned to a cache line goes through the driver's buffer. -/
def RtMmcsdData.mmc (host : SdhHost) (d : RtMmcsdData) : MmcData where
  dest := if d.buf &&& (64 - 1) ≠ 0 then host.cachebuf else d.buf
  flags := d.flags
  blocks := d.blks
  blocksize := d.blksize

def sdhSetCard : Option Nat → Sdh Unit
  | none => return ()
  | some type => do
    sdhWrite .cardIsEmmc (if type = cardTypeMmc then 1 else 0)
    sdhWrite .disableDataCrcChk (if type = cardTypeMmc then 1 else 0)

def sdhRun (bus : SdhBus) (cmd : MmcCmd) (data : Option MmcData) : Sdh SdhDone := do
  let (err, resp) ← nuSdhSendCommand bus cmd data
  return ⟨err, resp⟩

def nuSdhRequestCmd (bus : SdhBus) (host : SdhHost) (req : RtMmcsdReq) : Sdh (Option SdhDone) :=
  match req.cmd with
  | none => return none
  | some c =>
    match req.data with
    | none => some <$> sdhRun bus c.mmc none
    | some d =>
      if sdhBuffSize < d.blksize * d.blks then .fail .assertion
      else some <$> sdhRun bus c.mmc (some (d.mmc host))

def nuSdhRequestStop (bus : SdhBus) (req : RtMmcsdReq) : Sdh (Option SdhDone) :=
  match req.stop with
  | none => return none
  | some c => some <$> sdhRun bus c.mmc none

def nuSdhRequest (bus : SdhBus) (host : SdhHost) (req : RtMmcsdReq) :
    Sdh (Option SdhDone × Option SdhDone) := do
  sdhSetCard host.card
  let cmd ← nuSdhRequestCmd bus host req
  let stop ← nuSdhRequestStop bus req
  return (cmd, stop)

end NuMakerMA35
