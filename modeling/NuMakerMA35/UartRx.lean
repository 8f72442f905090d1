import NuMakerMA35.PdmaChannel
import NuMakerMA35.Ring

namespace NuMakerMA35

abbrev Byte := BitVec 8

structure NuRxbufCtx where
  pvRxBuf : Nat → Byte
  bufsize : U32
  wroteOffset : U32

structure NuUart where
  pdmaChanidRx : Nat
  dmabuf : NuRxbufCtx
  userbuf : NuRxbufCtx

def rtSerialEventRxDmadone : U32 := 0x03

def tempbufSize : Nat := 64

/-- What `nu_pdma_uart_rx_config` stores; `userBytes` and `dmaBytes` are what the two buffers
happen to hold. -/
def nuPdmaUartRxConfig (ch : Nat) (userBytes dmaBytes : Nat → Byte) (triggerLen : U32) : NuUart where
  pdmaChanidRx := ch
  dmabuf := ⟨dmaBytes, triggerLen, 0⟩
  userbuf := ⟨userBytes, triggerLen, 0⟩

def pdmaBitWidth (ctl : U32) : U32 :=
  let width := ctl &&& pdmaDsctCtlTxwidthMsk
  if width = pdmaWidth8 then 1 else if width = pdmaWidth16 then 2
  else if width = pdmaWidth32 then 4 else 0

/-- In scatter mode nothing is counted: the register then only links to the next descriptor. -/
def nuPdmaTransferredByteGet (s : PdmaState) (ch : Nat) (triggerByteLen : U32) :
    Except PdmaFault U32 := do
  if ← nuPdmaCheckIsNonallocated s ch then return -1
  if (s.dsct ch).opMode ≠ pdmaOpScatter then
    return triggerByteLen - nuPdmaNonTransferCountGet s ch * pdmaBitWidth (s.dsct ch).ctl
  return 0

/-- `nu_uart_flush_sync`: the two buffers, the offset each pointer has in its buffer and the
number of bytes still to copy. -/
def nuUartFlushSync (dst src : Nat → Byte) (bufsize : Nat) (dstPut srcPut : Nat) : Nat → Nat → Byte
  | 0 => dst
  | n + 1 =>
    let dstPut := if bufsize ≤ dstPut then 0 else dstPut
    let srcPut := if bufsize ≤ srcPut then 0 else srcPut
    nuUartFlushSync (Function.update dst dstPut (src srcPut)) src bufsize (dstPut + 1) (srcPut + 1) n

def NuRxbufCtx.append (user : NuRxbufCtx) (src : Nat → Byte) (srcPut syncLen : U32) : NuRxbufCtx :=
  { user with
    pvRxBuf := nuUartFlushSync user.pvRxBuf src user.bufsize.toNat user.wroteOffset.toNat
      srcPut.toNat syncLen.toNat
    wroteOffset := (user.wroteOffset + syncLen) % user.bufsize }

/-- The loop that empties the UART FIFO; the assertion is made after each byte. -/
def nuUartDrainFifo (tempbuf : Nat → Byte) (recvLen : Nat) :
    List Byte → Except PdmaFault ((Nat → Byte) × Nat)
  | [] => .ok (tempbuf, recvLen)
  | byte :: rest =>
    if recvLen + 1 < tempbufSize then
      nuUartDrainFifo (Function.update tempbuf recvLen byte) (recvLen + 1) rest
    else .error .assertion

/-- `nu_uart_flush` returns the event word given to `rt_hw_serial_isr`, if one is given. -/
def nuUartFlush (u : NuUart) (fifo : List Byte) (pdmaNewRxsize : U32) :
    Except PdmaFault (NuUart × Option U32) := do
  let user := if 0 < pdmaNewRxsize then
      u.userbuf.append u.dmabuf.pvRxBuf u.dmabuf.wroteOffset pdmaNewRxsize
    else u.userbuf
  let (tempbuf, n) ← nuUartDrainFifo (fun _ => 0) 0 fifo
  let recvLen := BitVec.ofNat 32 n
  let user := if 0 < recvLen then user.append tempbuf 0 recvLen else user
  let recvLen := recvLen + pdmaNewRxsize
  let event := if 0 < recvLen then some (rtSerialEventRxDmadone ||| (recvLen <<< 8)) else none
  return ({ u with userbuf := user }, event)

/-- `nu_pdma_uart_rx_cb`, with `done` for `NU_PDMA_EVENT_TRANSFER_DONE`; otherwise the event is
`NU_PDMA_EVENT_TIMEOUT`. -/
def nuPdmaUartRxCb (u : NuUart) (pdma : PdmaState) (fifo : List Byte) (done : Bool) :
    Except PdmaFault (NuUart × Option U32) := do
  let rxsize ← if done then pure u.dmabuf.bufsize
    else nuPdmaTransferredByteGet pdma u.pdmaChanidRx u.dmabuf.bufsize
  let (u, event) ← nuUartFlush u fifo (rxsize - u.dmabuf.wroteOffset)
  let wroteOffset := (u.dmabuf.wroteOffset + rxsize) % u.dmabuf.bufsize
  return ({ u with dmabuf := { u.dmabuf with wroteOffset := wroteOffset } }, event)

/-- The byte count `rt_hw_serial_isr` takes out of an event word. -/
def rtSerialRxLength (event : U32) : Int :=
  ((event &&& ~~~0xff#32).sshiftRight 8).toInt

theorem nuUartFlushSync_eq_put (src : Nat → Byte) {bufsize : Nat} (positive : 0 < bufsize)
    (n : Nat) : ∀ (dst : Nat → Byte) {dstPut srcPut : Nat}, dstPut ≤ bufsize → srcPut ≤ bufsize →
      nuUartFlushSync dst src bufsize dstPut srcPut n =
        Ring.put bufsize dst dstPut (Ring.view bufsize src srcPut n) := by
  induction n with
  | zero =>
    intro dst dstPut srcPut _ _
    simp [nuUartFlushSync, Ring.view, Ring.put]
  | succ n ih =>
    intro dst dstPut srcPut dstIn srcIn
    have wrap : ∀ {i}, i ≤ bufsize → (if bufsize ≤ i then 0 else i) = i % bufsize := by
      intro i within
      split_ifs with atEnd
      · have same : i = bufsize := by omega
        simp [same]
      · exact (Nat.mod_eq_of_lt (by omega)).symm
    have dstBelow := Nat.mod_lt dstPut positive
    have srcBelow := Nat.mod_lt srcPut positive
    have next : Ring.view bufsize src (srcPut % bufsize + 1) n =
        Ring.view bufsize src (srcPut + 1) n := by
      simp only [Ring.view, Nat.add_assoc, Nat.mod_add_mod]
    rw [nuUartFlushSync, wrap dstIn, wrap srcIn, ih _ dstBelow srcBelow, next,
      Ring.view_cons, Ring.put, ← Ring.put_start_mod _ _ _ (dstPut % bufsize + 1),
      ← Ring.put_start_mod _ _ _ (dstPut + 1), Nat.mod_add_mod]

theorem nuUartDrainFifo_eq (fifo : List Byte) : ∀ (tempbuf : Nat → Byte) {n : Nat}, n < tempbufSize →
    nuUartDrainFifo tempbuf n fifo = if n + fifo.length < tempbufSize then
      .ok (Ring.put tempbufSize tempbuf n fifo, n + fifo.length) else .error .assertion := by
  induction fifo with
  | nil =>
    intro tempbuf n below
    simp [nuUartDrainFifo, Ring.put, below]
  | cons byte rest ih =>
    intro tempbuf n below
    rw [nuUartDrainFifo]
    split_ifs with next fits fits
    · rw [ih _ next, Ring.put, Nat.mod_eq_of_lt below]
      have fits' : n + 1 + rest.length < tempbufSize := by
        simp only [List.length_cons] at fits
        omega
      simp only [fits', if_true, List.length_cons]
      congr 2
      omega
    · rw [ih _ next, if_neg]
      simp only [List.length_cons] at fits
      omega
    · simp only [List.length_cons] at fits
      omega
    · rfl

theorem nuUartDrainFifo_full {fifo : List Byte} (full : tempbufSize ≤ fifo.length) :
    nuUartDrainFifo (fun _ => 0) 0 fifo = .error .assertion := by
  rw [nuUartDrainFifo_eq fifo _ (by decide), if_neg (by omega)]

theorem view_tempbuf {fifo : List Byte} {bufsize : Nat} (below : fifo.length < tempbufSize)
    (room : fifo.length ≤ bufsize) :
    Ring.view bufsize (Ring.put tempbufSize (fun _ => 0) 0 fifo) 0 fifo.length = fifo := by
  have own : Ring.view bufsize (Ring.put tempbufSize (fun _ => 0) 0 fifo) 0 fifo.length =
      Ring.view tempbufSize (Ring.put tempbufSize (fun _ => 0) 0 fifo) 0 fifo.length := by
    apply List.map_congr_left
    intro j hj
    have inside := List.mem_range.mp hj
    rw [Nat.mod_eq_of_lt (by omega), Nat.mod_eq_of_lt (by omega)]
  rw [own, Ring.view_put_self (Nat.le_of_lt below)]

theorem event_count (recvLen : U32) :
    (rtSerialEventRxDmadone ||| (recvLen <<< 8)) &&& ~~~0xff#32 = recvLen <<< 8 := by
  apply BitVec.eq_of_getLsbD_eq
  intro i hi
  have mask : ∀ k : Fin 32, (0xff#32).getLsbD k = decide (k.val < 8) := by decide
  have code : ∀ k : Fin 32, rtSerialEventRxDmadone.getLsbD k = decide (k.val < 2) := by decide
  have maskHere : (0xff#32).getLsbD i = decide (i < 8) := mask ⟨i, hi⟩
  have codeHere : rtSerialEventRxDmadone.getLsbD i = decide (i < 2) := code ⟨i, hi⟩
  simp only [BitVec.getLsbD_and, BitVec.getLsbD_or, BitVec.getLsbD_not, BitVec.getLsbD_shiftLeft,
    maskHere, codeHere]
  by_cases small : i < 8
  · simp [small]
  · simp [small, hi, show ¬i < 2 by omega]

theorem rtSerialRxLength_event {recvLen : U32} (low : -2 ^ 23 ≤ recvLen.toInt)
    (high : recvLen.toInt < 2 ^ 23) :
    rtSerialRxLength (rtSerialEventRxDmadone ||| (recvLen <<< 8)) = recvLen.toInt := by
  have shifted : (recvLen <<< 8).toInt = recvLen.toInt * 256 := by
    rw [BitVec.toInt_shiftLeft, Nat.shiftLeft_eq]
    rw [BitVec.toInt_eq_toNat_cond] at low high ⊢
    rw [Int.bmod_def]
    split_ifs at low high ⊢ <;> omega
  rw [rtSerialRxLength, event_count, BitVec.toInt_sshiftRight, shifted, Int.shiftRight_eq_div_pow]
  omega

end NuMakerMA35
