import NuMakerMA35.BitUtil
import Mathlib.Logic.Function.Basic

namespace NuMakerMA35

def whcCh : Nat := 4

def whcMsgSize : Nat := 16

def whcIntstsTx0ifPos : Nat := 16
def whcIntstsRx0ifPos : Nat := 24

def whcTxBit (ch : Fin whcCh) : Nat := whcIntstsTx0ifPos + ch
def whcRxBit (ch : Fin whcCh) : Nat := whcIntstsRx0ifPos + ch

structure WhcChan where
  pvTxBuf : U32
  txReady : Bool
  rxReady : Bool

/-- How far `nu_whc_isr` is; `left` is its `vu32Intsts`, whose lowest bit is the one served. -/
inductive WhcIsr where
  | idle
  | loop (left : U32)
  | callback (left : U32)
  | clear (left : U32)
  deriving DecidableEq

inductive WhcPc where
  | out
  | setBuf (ch : Fin whcCh) (buffer : U32)
  | send (ch : Fin whcCh) (buffer : U32) (changed : Bool)
  | transmit (ch : Fin whcCh) (buffer : U32)
  | recv (ch : Fin whcCh)
  | acknowledge (ch : Fin whcCh)
  deriving DecidableEq

/-- The channels, and what is owed: the buffers of the writes that returned their size and have
had no callback, oldest first, the channels with a message that no indication has followed, and
whether a callback or a rejected write went wrong. -/
structure WhcRun (T : Type) where
  chan : Fin whcCh → WhcChan
  intsts : U32
  isr : WhcIsr
  pc : T → WhcPc
  sent : Fin whcCh → List U32
  unseen : Fin whcCh → Bool
  wrong : Bool

structure WhcCfg where
  txComplete : Fin whcCh → Bool
  rxIndicate : Fin whcCh → Bool

inductive WhcEvent (T : Type) where
  | write (t : T) (ch : Fin whcCh) (buffer : U32) (size : Nat)
  | read (t : T) (ch : Fin whcCh) (buffer : U32) (size : Nat)
  | run (t : T)
  | message (ch : Fin whcCh)
  | ack (ch : Fin whcCh)
  | isr

section Steps

variable {T : Type}

def WhcRun.setChan (s : WhcRun T) (ch : Fin whcCh) (x : WhcChan) : WhcRun T :=
  { s with chan := Function.update s.chan ch x }

def WhcRun.raise (s : WhcRun T) (bit : Nat) : WhcRun T :=
  { s with intsts := s.intsts ||| (1 : U32) <<< bit }

def whcChannel (base bit : Nat) : Option (Fin whcCh) :=
  if h : base ≤ bit ∧ bit < base + whcCh then some ⟨bit - base, by omega⟩ else none

def WhcRun.complete (s : WhcRun T) (ch : Fin whcCh) : WhcRun T :=
  { s with
    sent := Function.update s.sent ch (s.sent ch).tail
    wrong := s.wrong || decide ((s.sent ch).head? ≠ some (s.chan ch).pvTxBuf) }

def WhcRun.serve (s : WhcRun T) (c : WhcCfg) (left : U32) : WhcRun T :=
  match whcChannel whcIntstsTx0ifPos (nuCtz left) with
  | some ch =>
    if c.txComplete ch = true ∧ (s.chan ch).pvTxBuf ≠ 0 then
      { s.complete ch with isr := .callback left }
    else { s with isr := .clear left }
  | none =>
    match whcChannel whcIntstsRx0ifPos (nuCtz left) with
    | some ch =>
      if c.rxIndicate ch then
        { s with unseen := Function.update s.unseen ch false, isr := .callback left }
      else { s with isr := .clear left }
    | none => { s with isr := .clear left }

/-- The callback has returned; that of a transmission is followed by the reset of the pointer. -/
def WhcRun.returned (s : WhcRun T) (left : U32) : WhcRun T :=
  match whcChannel whcIntstsTx0ifPos (nuCtz left) with
  | some ch => { s.setChan ch { s.chan ch with pvTxBuf := 0 } with isr := .clear left }
  | none => { s with isr := .clear left }

def WhcRun.isrStep (s : WhcRun T) (c : WhcCfg) : WhcRun T :=
  match s.isr with
  | .idle => if s.intsts ≠ 0 then { s with isr := .loop s.intsts } else s
  | .loop left => if nuCtz left ≠ 32 then s.serve c left else { s with isr := .idle }
  | .callback left => s.returned left
  | .clear left =>
    { s with
      intsts := s.intsts &&& ~~~((1 : U32) <<< nuCtz left)
      isr := .loop (left &&& ~~~((1 : U32) <<< nuCtz left)) }

/-- The other core acknowledges the message sent to it, if there is one. -/
def WhcRun.acked (s : WhcRun T) (ch : Fin whcCh) : WhcRun T :=
  if (s.chan ch).txReady then s
  else (s.setChan ch { s.chan ch with txReady := true }).raise (whcTxBit ch)

variable [DecidableEq T]

def WhcRun.setPc (s : WhcRun T) (t : T) (pc : WhcPc) : WhcRun T :=
  { s with pc := Function.update s.pc t pc }

/-- The next step of a call. `WHC_Send` is the test of `TXSTS`, then the copy and `TXCTL`. -/
def WhcRun.callStep (s : WhcRun T) (c : WhcCfg) (t : T) : WhcRun T :=
  match s.pc t with
  | .out => s
  | .setBuf ch buffer =>
    let changed := decide (s.sent ch ≠ [] ∧ (s.chan ch).pvTxBuf ≠ buffer)
    (s.setChan ch { s.chan ch with pvTxBuf := buffer }).setPc t (.send ch buffer changed)
  | .send ch buffer changed =>
    if (s.chan ch).txReady then s.setPc t (.transmit ch buffer)
    else { s.setPc t .out with wrong := s.wrong || changed }
  | .transmit ch buffer =>
    { (s.setChan ch { s.chan ch with txReady := false }).setPc t .out with
      sent := if c.txComplete ch then Function.update s.sent ch (s.sent ch ++ [buffer]) else s.sent }
  | .recv ch => s.setPc t (if (s.chan ch).rxReady then .acknowledge ch else .out)
  | .acknowledge ch => (s.setChan ch { s.chan ch with rxReady := false }).setPc t .out

def whcArgs (buffer : U32) (size : Nat) : Bool := size = whcMsgSize && buffer &&& 3 = 0

def WhcRun.step (c : WhcCfg) (s : WhcRun T) : WhcEvent T → WhcRun T
  | .write t ch buffer size =>
    if s.pc t = .out ∧ whcArgs buffer size = true then s.setPc t (.setBuf ch buffer) else s
  | .read t ch buffer size =>
    if s.pc t = .out ∧ whcArgs buffer size = true then s.setPc t (.recv ch) else s
  | .run t => s.callStep c t
  | .message ch =>
    if (s.chan ch).rxReady then s
    else
      { (s.setChan ch { s.chan ch with rxReady := true }).raise (whcRxBit ch) with
        unseen := if c.rxIndicate ch then Function.update s.unseen ch true else s.unseen }
  | .ack ch => s.acked ch
  | .isr => s.isrStep c

end Steps

def WhcRun.start (T : Type) : WhcRun T where
  chan := fun _ => ⟨0, true, false⟩
  intsts := 0
  isr := .idle
  pc := fun _ => .out
  sent := fun _ => []
  unseen := fun _ => false
  wrong := false

end NuMakerMA35
