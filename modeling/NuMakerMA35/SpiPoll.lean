import NuMakerMA35.BitUtil
import NuMakerMA35.Words

namespace NuMakerMA35

open Words (Mem)

/-- `nu_get16_le`, `nu_get24_le` and `nu_get32_le`, for a number of bytes. -/
def nuGetLe (n : Nat) (mem : Mem) (pos : Nat) : U32 :=
  (List.range n).foldl (fun val i => val + (mem (pos + i)).setWidth 32 <<< (8 * i)) 0

def nuGet16Le : Mem → Nat → U32 := nuGetLe 2
def nuGet24Le : Mem → Nat → U32 := nuGetLe 3
def nuGet32Le : Mem → Nat → U32 := nuGetLe 4

def leBytes (n : Nat) (val : U32) : List (BitVec 8) :=
  (List.range n).map fun i => (val >>> (8 * i)).setWidth 8

/-- `nu_set16_le`, `nu_set24_le` and `nu_set32_le`, for a number of bytes. -/
def nuSetLe (n : Nat) (mem : Mem) (pos : Nat) (val : U32) : Mem :=
  (List.range n).foldl
    (fun mem i => Function.update mem (pos + i) ((val >>> (8 * i)).setWidth 8)) mem

def nuSet16Le : Mem → Nat → U32 → Mem := nuSetLe 2
def nuSet24Le : Mem → Nat → U32 → Mem := nuSetLe 3
def nuSet32Le : Mem → Nat → U32 → Mem := nuSetLe 4

/-- A polled transfer: the bytes of a word, the words of the length, the two buffers, of which address 0
is `RT_NULL`, and the depth of the two FIFOs. -/
structure SpiXfer where
  bytes : Nat
  words : Nat
  sendAddr : Nat
  recvAddr : Nat
  depth : Nat
  bytes_pos : 0 < bytes
  bytes_le : bytes ≤ 4
  depth_pos : 0 < depth

/-- The places `nu_spi_read` is called from: the transfer loop, the loop while the controller is busy,
and the last loop. -/
inductive SpiReader where
  | loop
  | busy
  | last
  deriving DecidableEq

inductive SpiPc where
  /-- `TXFULL` is tested in `nu_spi_write`. -/
  | full
  /-- A word is taken and written to `TX`. -/
  | write
  /-- `RXEMPTY` is tested in `nu_spi_read`. -/
  | empty (caller : SpiReader)
  /-- `RX` is read and the word is stored. -/
  | fetch (caller : SpiReader)
  /-- `BUSY` is tested before the received words are waited for. -/
  | busy
  /-- `RXEMPTY` is tested by the loop while the controller is busy. -/
  | more
  /-- `RXEMPTY` is tested by the last loop. -/
  | last
  /-- `BUSY` is tested in `nu_spi_drain_rxfifo`. -/
  | idle
  /-- `RXEMPTY` is tested in `nu_spi_drain_rxfifo`. -/
  | drain
  /-- `SPI_ClearRxFIFO`. -/
  | clear
  | done
  deriving DecidableEq

/-- The thread and the controller, with all words that were shifted out and in, and the number of
received words that found the FIFO full. -/
structure SpiPoll where
  mem : Mem
  send : Nat
  recv : Nat
  left : Nat
  pc : SpiPc
  tx : List U32
  shift : Option U32
  rx : List U32
  out : List U32
  inn : List U32
  dropped : Nat

namespace SpiPoll

def isBusy (s : SpiPoll) : Bool := !s.tx.isEmpty || s.shift.isSome

def loopHead (s : SpiPoll) : SpiPc :=
  if 0 < s.left then .full else if s.recv ≠ 0 then .busy else .idle

def returnTo (s : SpiPoll) : SpiReader → SpiPc
  | .loop => s.loopHead
  | .busy => .more
  | .last => .last

end SpiPoll

inductive SpiActor where
  | thread
  | load
  | finish
  deriving DecidableEq

/-- What can happen next: an access of the thread, the loading of the shift register, or the end of a
word there, with the word that came in for it. -/
inductive SpiEvent where
  | thread
  | load
  | finish (val : U32)

def SpiEvent.actor : SpiEvent → SpiActor
  | thread => .thread
  | load => .load
  | finish _ => .finish

namespace SpiXfer

variable (x : SpiXfer)

def length : Nat := x.bytes * x.words

/-- The read-only transfer sends its dummy, which is zero. -/
def ReadOnly : Prop := x.sendAddr = 0 ∧ x.recvAddr ≠ 0

def WriteOnly : Prop := x.sendAddr ≠ 0 ∧ x.recvAddr = 0

instance : Decidable x.ReadOnly := inferInstanceAs (Decidable (_ ∧ _))
instance : Decidable x.WriteOnly := inferInstanceAs (Decidable (_ ∧ _))

/-- The word that `nu_spi_write` takes from an address. -/
def wordAt (mem : Mem) (pos : Nat) : U32 :=
  match x.bytes with
  | 4 => nuGet32Le mem pos
  | 3 => nuGet24Le mem pos
  | 2 => nuGet16Le mem pos
  | _ => (mem pos).setWidth 32

def store (mem : Mem) (pos : Nat) (val : U32) : Mem :=
  match x.bytes with
  | 4 => nuSet32Le mem pos val
  | 3 => nuSet24Le mem pos val
  | 2 => nuSet16Le mem pos val
  | _ => Function.update mem pos (val.setWidth 8)

/-- The next access of `nu_spi_transmission_with_poll`. -/
def threadStep (s : SpiPoll) : SpiPoll :=
  match s.pc with
  | .full => if s.tx.length = x.depth then s else { s with pc := .write }
  | .write =>
    let s := { s with
      tx := s.tx ++ [if x.ReadOnly then 0 else x.wordAt s.mem s.send]
      send := if x.ReadOnly then s.send else s.send + x.bytes
      left := s.left - x.bytes }
    { s with pc := if x.WriteOnly then s.loopHead else .empty .loop }
  | .empty caller => { s with pc := if s.rx.isEmpty then s.returnTo caller else .fetch caller }
  | .fetch caller =>
    let s := { s with
      mem := x.store s.mem s.recv (s.rx.headD 0)
      rx := s.rx.tail
      recv := s.recv + x.bytes }
    { s with pc := s.returnTo caller }
  | .busy => { s with pc := if s.isBusy then .more else .last }
  | .more => { s with pc := if s.rx.isEmpty then .busy else .empty .busy }
  | .last => { s with pc := if s.rx.isEmpty then .done else .empty .last }
  | .idle => if s.isBusy then s else { s with pc := .drain }
  | .drain => { s with pc := if s.rx.isEmpty then .done else .clear }
  | .clear => { s with rx := [], pc := .drain }
  | .done => s

def loadStep (s : SpiPoll) : SpiPoll :=
  match s.shift, s.tx with
  | none, word :: tx => { s with tx := tx, shift := some word }
  | _, _ => s

/-- A word is shifted out and one in; where the FIFO is full, that is dropped. -/
def finishStep (val : U32) (s : SpiPoll) : SpiPoll :=
  match s.shift with
  | none => s
  | some word =>
    let s := { s with shift := none, out := s.out ++ [word], inn := s.inn ++ [val] }
    if s.rx.length < x.depth then { s with rx := s.rx ++ [val] }
    else { s with dropped := s.dropped + 1 }

def step (s : SpiPoll) : SpiEvent → SpiPoll
  | .thread => x.threadStep s
  | .load => loadStep s
  | .finish val => x.finishStep val s

def start (mem : Mem) : SpiPoll :=
  let s : SpiPoll := ⟨mem, x.sendAddr, x.recvAddr, x.length, .done, [], none, [], [], [], 0⟩
  { s with pc := s.loopHead }

def run (mem : Mem) (es : List SpiEvent) : SpiPoll := es.foldl x.step (x.start mem)

def sendBytes (mem : Mem) : List (BitVec 8) :=
  if x.sendAddr = 0 then List.replicate x.length 0 else Words.slice mem x.sendAddr x.length

/-- In a state of a run no received word is lost, unless there is no receive buffer and such words do
not count, what was shifted out is the front of what is to be sent, and memory is as before but for
the receive buffer. -/
structure Safe (unread : Bool) (mem : Mem) (s : SpiPoll) : Prop where
  kept : unread = true ∨ x.recvAddr ≠ 0 → s.dropped = 0
  sent : s.out.flatMap (leBytes x.bytes) <+: x.sendBytes mem
  frame : ∀ a, x.recvAddr = 0 ∨ a < x.recvAddr ∨ x.recvAddr + x.length ≤ a → s.mem a = mem a

structure Complete (mem : Mem) (s : SpiPoll) : Prop where
  sent : s.out.flatMap (leBytes x.bytes) = x.sendBytes mem
  received : x.recvAddr ≠ 0 →
    Words.slice s.mem x.recvAddr x.length = s.inn.flatMap (leBytes x.bytes)

/-- Every state of every run is safe, the call returns in every run in which each of the actors goes on
taking its turns, and then all is done. -/
structure Transfers (unread : Bool) (mem : Mem) : Prop where
  safe : ∀ es, x.Safe unread mem (x.run mem es)
  complete : ∀ es, (x.run mem es).pc = .done → x.Complete mem (x.run mem es)
  returns : ∀ events : Nat → SpiEvent, (∀ actor n, ∃ m, n ≤ m ∧ (events m).actor = actor) →
    ∃ n, (x.run mem ((List.range n).map events)).pc = .done

/-- There is nothing to transfer; or there is a buffer, all words fit the receive FIFO where they count,
and the receive buffer does not begin inside the send buffer behind its start. -/
def Fits (unread : Bool) : Prop :=
  x.words = 0 ∨ (x.sendAddr ≠ 0 ∨ x.recvAddr ≠ 0) ∧
    (unread = true ∨ x.recvAddr ≠ 0 → x.words ≤ x.depth) ∧
    (x.sendAddr ≠ 0 → x.recvAddr ≠ 0 →
      x.words = 1 ∨ x.recvAddr ≤ x.sendAddr ∨ x.sendAddr + x.length ≤ x.recvAddr)

end SpiXfer

end NuMakerMA35
