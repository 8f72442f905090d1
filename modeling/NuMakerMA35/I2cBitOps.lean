import NuMakerMA35.I2cMaster

namespace NuMakerMA35

namespace I2cMsg

variable (msg : I2cMsg)

def noReadAck : Bool := msg.flags &&& 0x0040 != 0
def noStop : Bool := msg.flags &&& 0x0080 != 0

end I2cMsg

def rtErrTimeout : Int := -2
def rtErrIo : Int := -8
def rtErrGeneric : Int := -1

/-- What the bus rules make of the two lines: a data line that falls or rises while the clock is high is
a START or a STOP, and a high clock without one is a bit. -/
inductive I2cSym where
  | start
  | stop
  | bit (b : Bool)
  deriving DecidableEq

/-- The slaves see the symbols: whether one pulls the data line low, and after how many polls of a
released clock it lets it rise; `tick` are the ticks at each poll since then. A clock that `SCL_H` has given
up may still rise `late`, before the next change of a line, with the data line as the master drives it. -/
structure I2cSlave where
  pull : List I2cSym → Bool
  stretch : List I2cSym → Nat
  tick : List I2cSym → Nat → Nat
  late : List I2cSym → Bool → Bool

/-- The clock, what the master drives on the data line, and the symbols so far; `clean` while the data
line did not change in this high clock, `released` while the slaves alone hold the clock low. -/
structure I2cPins where
  scl : Bool
  drive : Bool
  clean : Bool
  hist : List I2cSym
  released : Bool

/-- The polls of a released clock, from poll `i` on, with so many left that find it low. -/
def waitScl (timeout : Nat) (tick : Nat → Nat) : Nat → Nat → Bool
  | 0, _ => true
  | low + 1, i => if tick i > timeout then false else waitScl timeout tick low (i + 1)

/-- The clock rises before `SCL_H` gives up. -/
def I2cSlave.inTime (slave : I2cSlave) (timeout : Nat) (hist : List I2cSym) : Bool :=
  waitScl timeout (slave.tick hist) (slave.stretch hist) 0

namespace I2cPins

variable (slave : I2cSlave) (timeout : Nat) (p : I2cPins)

/-- `GET_SDA`: the line is low where the master or a slave pulls. -/
def getSda : Bool := p.drive && !slave.pull p.hist

/-- A clock that nothing but the slaves hold rises where they let it go late. -/
def rise : I2cPins :=
  if p.released = true ∧ slave.late p.hist p.drive = true then { p with scl := true, clean := true, released := false }
  else p

def setSda (value : Bool) : I2cPins :=
  let after := value && !slave.pull p.hist
  if p.scl = true ∧ p.getSda slave ≠ after then
    { p with drive := value, clean := false, hist := p.hist ++ [if after then .stop else .start] }
  else ({ p with drive := value } : I2cPins).rise slave

def sclL : I2cPins :=
  if p.scl = true ∧ p.clean = true then
    { p with scl := false, hist := p.hist ++ [.bit (p.getSda slave)], released := false }
  else { p with scl := false, released := false }

/-- `SCL_H`, and whether it returned `RT_EOK`; it leaves the clock released also where it gives up. -/
def sclH : Bool × I2cPins :=
  if p.scl then (true, p)
  else if slave.inTime timeout p.hist then (true, { p with scl := true, clean := true, released := false })
  else (false, ({ p with released := true } : I2cPins).rise slave)

def start : I2cPins := (p.setSda slave false).sclL slave

def restart : I2cPins := (((p.setSda slave true).sclH slave timeout).2.setSda slave false).sclL slave

def stop : I2cPins := ((p.setSda slave false).sclH slave timeout).2.setSda slave true

def waitack : Int × I2cPins :=
  let up := (p.setSda slave true).sclH slave timeout
  if up.1 then (if up.2.getSda slave then 0 else 1, up.2.sclL slave) else (rtErrTimeout, up.2)

def writeBits (data : BitVec 8) : Nat → I2cPins → Bool × I2cPins
  | 0, p => (true, p)
  | i + 1, p =>
    let bit := (data >>> i &&& 1) ≠ 0
    let up := ((p.sclL slave).setSda slave bit).sclH slave timeout
    if up.1 then writeBits data i up.2 else up

def writeb (data : BitVec 8) : Int × I2cPins :=
  let sent := writeBits slave timeout data 8 p
  if sent.1 then (sent.2.sclL slave).waitack slave timeout else (rtErrTimeout, sent.2)

def readBits : Nat → BitVec 8 → I2cPins → Int × I2cPins
  | 0, data, p => (data.toNat, p)
  | n + 1, data, p =>
    let data := data <<< 1
    let up := p.sclH slave timeout
    if up.1 then
      readBits n (if up.2.getSda slave then data ||| 1 else data) (up.2.sclL slave)
    else (rtErrTimeout, up.2)

def readb : Int × I2cPins := readBits slave timeout 8 0 (p.setSda slave true)

def sendAckOrNack (ack : Bool) : Int × I2cPins :=
  let p := if ack then p.setSda slave false else p
  let up := p.sclH slave timeout
  if up.1 then (0, up.2.sclL slave) else (rtErrTimeout, up.2)

end I2cPins

structure I2cOps (σ : Type) where
  start : σ → σ
  restart : σ → σ
  stop : σ → σ
  writeb : BitVec 8 → σ → Int × σ
  readb : σ → Int × σ
  sendAckOrNack : Bool → σ → Int × σ

/-- A transfer's return value, its messages with what was received, and the bus behind it. -/
structure I2cXfer (σ : Type) where
  ret : Int
  msgs : List I2cMsg
  bus : σ

namespace I2cOps

variable {σ : Type} (ops : I2cOps σ) (retries : Nat)

def sendBytes (msg : I2cMsg) : Nat → Nat → σ → Int × σ
  | 0, bytes, s => (bytes, s)
  | count + 1, bytes, s =>
    let ret := ops.writeb (msg.buf bytes) s
    if ret.1 > 0 ∨ msg.ignoreNack = true ∧ ret.1 = 0 then sendBytes msg count (bytes + 1) ret.2
    else (if ret.1 = 0 then 0 else ret.1, ret.2)

def recvBytes : Nat → Nat → I2cMsg → σ → Int × I2cMsg × σ
  | 0, bytes, msg, s => (bytes, msg, s)
  | count + 1, bytes, msg, s =>
    let val := ops.readb s
    if val.1 ≥ 0 then
      let msg := { msg with buf := Function.update msg.buf bytes (BitVec.ofInt 8 val.1) }
      if msg.noReadAck then recvBytes count (bytes + 1) msg val.2
      else
        let sent := ops.sendAckOrNack (count ≠ 0) val.2
        if sent.1 < 0 then (sent.1, msg, sent.2) else recvBytes count (bytes + 1) msg sent.2
    else (bytes, msg, val.2)

def sendAddress (addr : BitVec 8) : Nat → σ → Int × σ
  | 0, s => ops.writeb addr s
  | retries + 1, s =>
    let ret := ops.writeb addr s
    if ret.1 = 1 then ret else sendAddress addr retries (ops.start (ops.stop ret.2))

def bitSendAddress (msg : I2cMsg) (s : σ) : Int × σ :=
  let retries := if msg.ignoreNack then 0 else retries
  if msg.tenBit then
    let addr1 := (0xf0 : BitVec 8) ||| ((msg.addr >>> 7).setWidth 8 &&& 0x06)
    let addr2 : BitVec 8 := msg.addr.setWidth 8
    let first := ops.sendAddress addr1 retries s
    if first.1 ≠ 1 ∧ msg.ignoreNack = false then (rtErrIo, first.2)
    else
      let second := ops.writeb addr2 first.2
      if second.1 ≠ 1 ∧ msg.ignoreNack = false then (rtErrIo, second.2)
      else if msg.read then
        let again := ops.sendAddress (addr1 ||| 0x01) retries (ops.restart second.2)
        if again.1 ≠ 1 ∧ msg.ignoreNack = false then (rtErrIo, again.2) else (0, again.2)
      else (0, second.2)
  else
    let addr1 : BitVec 8 := (msg.addr <<< 1).setWidth 8
    let ret := ops.sendAddress (if msg.read then addr1 ||| 1 else addr1) retries s
    if ret.1 ≠ 1 ∧ msg.ignoreNack = false then (rtErrIo, ret.2) else (0, ret.2)

/-- The bytes of a message, behind its address: an error ends the transfer. -/
def xferBytes (msg : I2cMsg) (s : σ) : Option Int × I2cMsg × σ :=
  if msg.read then
    let ret := ops.recvBytes msg.len.toNat 0 msg s
    (if ret.1 < msg.len.toNat then some (if ret.1 ≥ 0 then rtErrIo else ret.1) else none, ret.2)
  else
    let ret := ops.sendBytes msg msg.len.toNat 0 s
    (if ret.1 < msg.len.toNat then some (if ret.1 ≥ 0 then rtErrGeneric else ret.1) else none, msg, ret.2)

def xferMsg (first : Bool) (msg : I2cMsg) (s : σ) : Option Int × I2cMsg × σ :=
  if msg.noStart then ops.xferBytes msg s
  else
    let ret := ops.bitSendAddress retries msg (if first then ops.start s else ops.restart s)
    if ret.1 ≠ 0 ∧ msg.ignoreNack = false then (some ret.1, msg, ret.2) else ops.xferBytes msg ret.2

/-- The loop of `i2c_bit_xfer` from `msg` on, and the end of the transfer. -/
def xferMsgs (num : Nat) (first : Bool) (msg : I2cMsg) : List I2cMsg → σ → I2cXfer σ
  | [], s =>
    let ret := ops.xferMsg retries first msg s
    ⟨ret.1.getD num, [ret.2.1], if msg.noStop then ret.2.2 else ops.stop ret.2.2⟩
  | next :: rest, s =>
    let ret := ops.xferMsg retries first msg s
    match ret.1 with
    | some err => ⟨err, ret.2.1 :: next :: rest, if msg.noStop then ret.2.2 else ops.stop ret.2.2⟩
    | none =>
      let later := xferMsgs num false next rest ret.2.2
      { later with msgs := ret.2.1 :: later.msgs }

def i2cBitXfer (msgs : List I2cMsg) (s : σ) : I2cXfer σ :=
  match msgs with
  | [] => ⟨0, [], s⟩
  | msg :: rest => ops.xferMsgs retries (rest.length + 1) true msg rest s

end I2cOps

def i2cBitOps (slave : I2cSlave) (timeout : Nat) : I2cOps I2cPins where
  start := I2cPins.start slave
  restart := I2cPins.restart slave timeout
  stop := I2cPins.stop slave timeout
  writeb data p := p.writeb slave timeout data
  readb := I2cPins.readb slave timeout
  sendAckOrNack ack p := p.sendAckOrNack slave timeout ack

end NuMakerMA35
