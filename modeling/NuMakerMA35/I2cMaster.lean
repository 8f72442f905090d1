import NuMakerMA35.BitUtil
import NuMakerMA35.Logged

namespace NuMakerMA35

structure I2cMsg where
  addr : BitVec 16
  flags : BitVec 16
  len : BitVec 16
  buf : Nat → BitVec 8

namespace I2cMsg

variable (msg : I2cMsg)

def read : Bool := msg.flags &&& 0x0001 != 0
def tenBit : Bool := msg.flags &&& 0x0004 != 0
def noStart : Bool := msg.flags &&& 0x0010 != 0
def ignoreNack : Bool := msg.flags &&& 0x0020 != 0

end I2cMsg

/-- What the driver makes the controller do, and for which message. -/
inductive I2cCmd where
  | start
  | restart (k : Nat)
  | address (k : Nat) (read : Bool) (b : BitVec 8)
  | addressRestart (k : Nat)
  | data (k pos : Nat) (b : BitVec 8)
  | receive (k pos : Nat) (aa : Bool)
  deriving DecidableEq

/-- `STATUS0` and `DAT` when `SI` is set again. -/
structure I2cAnswer where
  status : U32
  dat : BitVec 8
  deriving DecidableEq

/-- A command with what came of it, nothing within the time-out or an answer; a byte stored in the
buffer of a message; and a STOP, after which `STO` was polled so many times. -/
inductive I2cEvent where
  | cmd (c : I2cCmd) (a : Option I2cAnswer)
  | store (k pos : Nat) (b : BitVec 8)
  | stop (polls : Nat)
  deriving DecidableEq

inductive I2cFault where
  | asserted
  | stopNeverDone
  | outOfFuel
  deriving DecidableEq

/-- Controller, bus and slaves: what they answer may depend on all that was before. `stops` are the
polls until `STO` is clear, if it ever is, and the status then. -/
structure I2cBus where
  answer : List I2cEvent → I2cCmd → Option I2cAnswer
  stops : List I2cEvent → Option (Nat × U32)

abbrev I2c (α : Type) := Logged I2cFault I2cEvent α

namespace I2cBus

variable (bus : I2cBus)

def ask (c : I2cCmd) : I2c (Option I2cAnswer) := fun log =>
  (.ok (bus.answer log c), log ++ [.cmd c (bus.answer log c)])

/-- One byte of the address, or the repeated START within it; the status is not looked at where
`ignore_nack` is set. -/
def askAddress (ignoreNack : Bool) (expected : U32) (c : I2cCmd) : I2c Bool := do
  match ← bus.ask c with
  | none => pure false
  | some a => pure (a.status = expected || ignoreNack)

/-- The repeated START and the last byte of a 10-bit address that is read from. -/
def sendReadAddress (k : Nat) (msg : I2cMsg) (addr1 : BitVec 8) : I2c Bool := do
  if ← bus.askAddress msg.ignoreNack 0x10 (.addressRestart k) then
    bus.askAddress msg.ignoreNack 0x40 (.address k true (addr1 ||| 0x01))
  else pure false

def nuI2cSendAddress (k : Nat) (msg : I2cMsg) : I2c Bool :=
  if msg.tenBit then do
    let addr1 : BitVec 8 := 0xf0 ||| ((msg.addr >>> 7).setWidth 8 &&& 0x06)
    let addr2 : BitVec 8 := msg.addr.setWidth 8
    if ← bus.askAddress msg.ignoreNack 0x18 (.address k false addr1) then
      if ← bus.askAddress msg.ignoreNack 0x18 (.address k false addr2) then
        if msg.read then bus.sendReadAddress k msg addr1 else pure true
      else pure false
    else pure false
  else
    let addr1 : BitVec 8 := (msg.addr <<< 1).setWidth 8
    if msg.read then bus.askAddress msg.ignoreNack 0x40 (.address k true (addr1 ||| 1))
    else bus.askAddress msg.ignoreNack 0x18 (.address k false addr1)

inductive BytesEnd where
  | done
  | timeout
  | refused
  deriving DecidableEq

/-- The loop that receives the last `n` bytes of message `k`. After the last byte of the last
message `do_rd_nack` is 2 and the byte is not acknowledged. -/
def receiveBytes (k : Nat) (msg : I2cMsg) : Nat → Nat → Nat → I2c BytesEnd
  | 0, _, _ => pure .done
  | n + 1, pos, doRdNack => do
    let doRdNack := doRdNack + if pos + 1 = msg.len.toNat then 1 else 0
    match ← bus.ask (.receive k pos (doRdNack ≠ 2)) with
    | none => pure .timeout
    | some a =>
      if a.status ≠ (if doRdNack ≠ 2 then 0x50 else 0x58) then pure .refused
      else do
        Logged.issue (.store k pos a.dat) fun _ => ()
        receiveBytes k msg n (pos + 1) doRdNack

def sendBytes (k : Nat) (msg : I2cMsg) : Nat → Nat → I2c BytesEnd
  | 0, _ => pure .done
  | n + 1, pos => do
    match ← bus.ask (.data k pos (msg.buf pos)) with
    | none => pure .timeout
    | some a =>
      if a.status ≠ 0x28 ∧ msg.ignoreNack = false then pure .refused
      else sendBytes k msg n (pos + 1)

/-- The repeated START of message `k`, none for the first one; the value of `i` where the loop over
the messages is left. -/
def restartMsg (k : Nat) : I2c (Option Nat) :=
  if k = 0 then pure none
  else do
    match ← bus.ask (.restart k) with
    | none => pure (some k)
    | some a => if a.status ≠ 0x10 then pure (some 0) else pure none

def startMsg (k : Nat) (msg : I2cMsg) : I2c (Option Nat) :=
  if msg.noStart then pure none
  else do
    match ← bus.restartMsg k with
    | some i => pure (some i)
    | none => do
      let sent ← bus.nuI2cSendAddress k msg
      if sent = false ∧ msg.ignoreNack = false then pure (some 0) else pure none

def transferBytes (num k : Nat) (msg : I2cMsg) : I2c BytesEnd :=
  if msg.read then bus.receiveBytes k msg msg.len.toNat 0 (if k + 1 = num then 1 else 0)
  else bus.sendBytes k msg msg.len.toNat 0

/-- The loop over the messages from `i` on. A byte that is refused sets `i` to 0 but leaves only the
loop over the bytes, so that `i++` makes it 1; after a time-out the next message follows. -/
def xferLoop (msgs : List I2cMsg) : Nat → Nat → I2c Nat
  | 0, _ => Logged.fail .outOfFuel
  | fuel + 1, i =>
    match msgs[i]? with
    | none => pure i
    | some msg => do
      match ← bus.startMsg i msg with
      | some r => pure r
      | none => do
        match ← bus.transferBytes msgs.length i msg with
        | .refused => xferLoop msgs fuel 1
        | _ => xferLoop msgs fuel (i + 1)

/-- `I2C_STOP`, which waits for `STO` without a limit, and the assertion after it. -/
def stopBus : I2c Unit := fun log =>
  match bus.stops log with
  | none => (.error .stopNeverDone, log)
  | some (polls, status) =>
    if status = 0xF8 then (.ok (), log ++ [.stop polls]) else (.error .asserted, log ++ [.stop polls])

def nuI2cMstXfer (msgs : List I2cMsg) (fuel : Nat) : I2c Nat := do
  match ← bus.ask .start with
  | none => pure 0
  | some a =>
    if a.status ≠ 0x08 then pure 0
    else do
      let i ← bus.xferLoop msgs fuel 0
      bus.stopBus
      pure i

end I2cBus

end NuMakerMA35
