import NuMakerMA35.UartRx

namespace NuMakerMA35

/-- A serial line being received: the driver, its channel, and what happened so far. -/
structure UartLine where
  uart : NuUart
  pdma : PdmaState
  /-- Offset in its buffer at which the controller goes on writing. -/
  pos : Nat
  /-- The value of `pos` before the last event. -/
  prevPos : Nat
  received : List Byte
  /-- Sum of the counts reported to the serial layer. -/
  reported : Int
  /-- What the reader took out of the user buffer. -/
  taken : List Byte
  halted : Bool

/-- An event of the channel comes with the bytes moved since the last one, the bytes still in the
FIFO and the control word the channel then shows. -/
inductive UartEvent where
  | pdma (done : Bool) (bytes fifo : List Byte) (ctl : U32)
  | read (n : Nat)

def UartLine.size (l : UartLine) : Nat := l.uart.dmabuf.bufsize.toNat

def UartLine.fill (l : UartLine) (done : Bool) (bytes fifo : List Byte) (ctl : U32) : UartLine :=
  let ch := l.uart.pdmaChanidRx
  { l with
    uart := { l.uart with dmabuf := { l.uart.dmabuf with
      pvRxBuf := Ring.put l.size l.uart.dmabuf.pvRxBuf l.pos bytes } }
    pdma := { l.pdma with dsct := Function.update l.pdma.dsct ch { l.pdma.dsct ch with ctl := ctl } }
    pos := if done then 0 else l.pos + bytes.length
    prevPos := l.pos
    received := l.received ++ (bytes ++ fifo) }

/-- The reader follows the counts round the user buffer; a failed assertion stops the system. -/
def uartStep (l : UartLine) (e : UartEvent) : UartLine :=
  if l.halted then l else
  match e with
  | .pdma done bytes fifo ctl =>
    let l := l.fill done bytes fifo ctl
    match nuPdmaUartRxCb l.uart l.pdma fifo done with
    | .ok (u, event) =>
      { l with uart := u, reported := l.reported + (event.map rtSerialRxLength).getD 0 }
    | .error _ => { l with halted := true }
  | .read n =>
    { l with taken := l.taken ++ Ring.view l.size l.uart.userbuf.pvRxBuf l.taken.length n }

/-- The stream as the serial layer has it: the bytes taken and those reported but not yet taken. -/
def UartLine.handed (l : UartLine) : List Byte :=
  l.taken ++ Ring.view l.size l.uart.userbuf.pvRxBuf l.taken.length
    (l.reported - l.taken.length).toNat

def UartLine.Delivers (l : UartLine) : Prop :=
  l.handed = l.received ∧ l.reported = l.received.length

/-- A time-out control word counts the bytes still to move; right after the buffer came round it
may still be the link to the descriptor. -/
def ShowsPosition (ctl : U32) (pos size : Nat) : Prop :=
  (ctl &&& pdmaDsctCtlOpmodeMsk ≠ pdmaOpScatter ∧ ctl &&& pdmaDsctCtlTxwidthMsk = pdmaWidth8 ∧
      ((ctl &&& pdmaDsctCtlTxcntMsk) >>> pdmaDsctCtlTxcntPos).toNat + 1 + pos = size) ∨
    (ctl &&& pdmaDsctCtlOpmodeMsk = pdmaOpScatter ∧ pos = 0)

instance (ctl : U32) (pos size : Nat) : Decidable (ShowsPosition ctl pos size) :=
  inferInstanceAs (Decidable (_ ∧ _ ∧ _ ∨ _ ∧ _))

/-- The events that can happen: the controller raises its done event exactly at the end of the
buffer, and the reader leaves room for what arrives and takes no more than was reported. -/
def UartLine.Possible (l : UartLine) : UartEvent → Prop
  | .pdma done bytes fifo ctl =>
    (if done then l.pos + bytes.length = l.size
      else l.pos + bytes.length < l.size ∧ ShowsPosition ctl (l.pos + bytes.length) l.size) ∧
    (l.received ++ (bytes ++ fifo)).length ≤ l.taken.length + l.size
  | .read n => (n : Int) ≤ l.reported - l.taken.length

instance (l : UartLine) : (e : UartEvent) → Decidable (l.Possible e)
  | .pdma true _ _ _ => inferInstanceAs (Decidable (_ ∧ _))
  | .pdma false _ _ _ => inferInstanceAs (Decidable ((_ ∧ _) ∧ _))
  | .read _ => inferInstanceAs (Decidable (_ ≤ _))

/-- The event before this one found the controller at the start of its buffer, and the FIFO fits
the local buffer. -/
def UartLine.Tracked (l : UartLine) : UartEvent → Prop
  | .pdma _ _ fifo _ => l.prevPos = 0 ∧ fifo.length < tempbufSize
  | .read _ => True

/-- The line as `nu_pdma_uart_rx_config` starts it on a channel. -/
def UartLine.start (pdma : PdmaState) (ch : Nat) (userBytes dmaBytes : Nat → Byte) (size : U32) :
    UartLine where
  uart := nuPdmaUartRxConfig ch userBytes dmaBytes size
  pdma := pdma
  pos := 0
  prevPos := 0
  received := []
  reported := 0
  taken := []
  halted := false

/-- The driver's offset agrees with the controller's exactly when the last event began at the
start of the buffer. -/
structure UartInv (l : UartLine) : Prop where
  positive : 0 < l.size
  bound : l.size ≤ nuPdmaMaxTxcnt
  sameSize : l.uart.userbuf.bufsize = l.uart.dmabuf.bufsize
  allocated : l.pdma.allocated l.uart.pdmaChanidRx
  running : l.halted = false
  posBelow : l.pos < l.size
  offsetBelow : l.uart.dmabuf.wroteOffset.toNat < l.size
  offset : l.uart.dmabuf.wroteOffset.toNat = l.pos ↔ l.prevPos = 0
  userOffset : l.uart.userbuf.wroteOffset.toNat = l.received.length % l.size
  counted : l.reported = l.received.length
  handed : l.handed = l.received
  takenLe : l.taken.length ≤ l.received.length
  room : l.received.length ≤ l.taken.length + l.size

theorem NuRxbufCtx.append_none {user : NuRxbufCtx} (inside : user.wroteOffset < user.bufsize)
    (src : Nat → Byte) (srcPut : U32) : user.append src srcPut 0 = user := by
  have same : user.wroteOffset % user.bufsize = user.wroteOffset := by
    apply BitVec.eq_of_toNat_eq
    rw [BitVec.toNat_umod]
    exact Nat.mod_eq_of_lt inside
  simp [NuRxbufCtx.append, nuUartFlushSync, same]

theorem NuRxbufCtx.append_inside {user : NuRxbufCtx} (positive : 0 < user.bufsize)
    (src : Nat → Byte) (srcPut syncLen : U32) :
    (user.append src srcPut syncLen).wroteOffset < (user.append src srcPut syncLen).bufsize := by
  rw [BitVec.lt_def]
  simp only [NuRxbufCtx.append, BitVec.toNat_umod]
  exact Nat.mod_lt _ positive

def rxEvent (recvLen : U32) : Option U32 :=
  if 0 < recvLen then some (rtSerialEventRxDmadone ||| (recvLen <<< 8)) else none

/-- The user buffer after a flush: the new bytes of the DMA buffer, then those of the FIFO. -/
def NuUart.flushed (u : NuUart) (fifo : List Byte) (pdmaNewRxsize : U32) : NuRxbufCtx :=
  (u.userbuf.append u.dmabuf.pvRxBuf u.dmabuf.wroteOffset pdmaNewRxsize).append
    (Ring.put tempbufSize (fun _ => 0) 0 fifo) 0 (BitVec.ofNat 32 fifo.length)

theorem nuUartFlush_eq {u : NuUart} {fifo : List Byte} (inside : u.userbuf.wroteOffset < u.userbuf.bufsize)
    (below : fifo.length < tempbufSize) (pdmaNewRxsize : U32) :
    nuUartFlush u fifo pdmaNewRxsize = .ok ({ u with userbuf := u.flushed fifo pdmaNewRxsize },
      rxEvent (BitVec.ofNat 32 fifo.length + pdmaNewRxsize)) := by
  have positive : 0 < u.userbuf.bufsize := by
    rw [BitVec.lt_def] at inside ⊢
    exact Nat.lt_of_le_of_lt (Nat.zero_le _) inside
  have dropGuard : ∀ {user : NuRxbufCtx} (src : Nat → Byte) (srcPut n : U32),
      user.wroteOffset < user.bufsize →
      (if 0 < n then user.append src srcPut n else user) = user.append src srcPut n := by
    intro user src srcPut n here
    split_ifs with some
    · rfl
    · have none : n = 0 := by
        apply BitVec.eq_of_toNat_eq
        rw [BitVec.lt_def] at some
        simpa using some
      rw [none, NuRxbufCtx.append_none here]
  have drained : nuUartDrainFifo (fun _ => 0) 0 fifo =
      .ok (Ring.put tempbufSize (fun _ => 0) 0 fifo, fifo.length) := by
    rw [nuUartDrainFifo_eq fifo _ (by decide), Nat.zero_add, if_pos below]
  rw [nuUartFlush, drained]
  simp only [bind, Except.bind, pure, Except.pure]
  rw [dropGuard _ _ _ inside, dropGuard _ _ _ (NuRxbufCtx.append_inside positive _ _ _)]
  rfl

theorem reported_rxEvent (recvLen : U32) (low : -2 ^ 23 ≤ recvLen.toInt)
    (high : recvLen.toInt < 2 ^ 23) :
    ((rxEvent recvLen).map rtSerialRxLength).getD 0 = recvLen.toInt := by
  unfold rxEvent
  split_ifs with some
  · exact rtSerialRxLength_event low high
  · have none : recvLen = 0 := by
      apply BitVec.eq_of_toNat_eq
      rw [BitVec.lt_def] at some
      simpa using some
    simp [none]

theorem nuPdmaTransferredByteGet_eq {s : PdmaState} {ch pos : Nat} {size : U32}
    (alloc : s.allocated ch) (shows : ShowsPosition (s.dsct ch).ctl pos size.toNat) :
    nuPdmaTransferredByteGet s ch size = .ok (BitVec.ofNat 32 pos) := by
  rw [nuPdmaTransferredByteGet, check_of_allocated alloc]
  simp only [bind, Except.bind, pure, Except.pure, Bool.false_eq_true, if_false]
  rcases shows with ⟨mode, width, count⟩ | ⟨mode, atStart⟩
  · have left : nuPdmaNonTransferCountGet s ch * pdmaBitWidth (s.dsct ch).ctl =
        nuPdmaNonTransferCountGet s ch := by
      simp [pdmaBitWidth, width]
    have mode : (s.dsct ch).opMode ≠ pdmaOpScatter := mode
    rw [if_pos mode, left, nuPdmaNonTransferCountGet]
    congr 1
    apply BitVec.eq_of_toNat_eq
    have inRange := size.isLt
    have one : (1 : U32).toNat = 1 := rfl
    simp only [BitVec.toNat_sub, BitVec.toNat_add, BitVec.toNat_ofNat, one, Nat.reducePow]
    omega
  · have mode : (s.dsct ch).opMode = pdmaOpScatter := mode
    rw [if_neg (not_not_intro mode), atStart]
    rfl

theorem nuPdmaUartRxCb_eq {u : NuUart} {pdma : PdmaState} {reach : Nat} {done : Bool} (fifo : List Byte)
    (rxsize : (if done then Except.ok u.dmabuf.bufsize
      else nuPdmaTransferredByteGet pdma u.pdmaChanidRx u.dmabuf.bufsize) =
        .ok (BitVec.ofNat 32 reach)) :
    nuPdmaUartRxCb u pdma fifo done =
      (nuUartFlush u fifo (BitVec.ofNat 32 reach - u.dmabuf.wroteOffset)).map fun r =>
        ({ r.1 with dmabuf := { r.1.dmabuf with
          wroteOffset := (r.1.dmabuf.wroteOffset + BitVec.ofNat 32 reach) % r.1.dmabuf.bufsize } },
          r.2) := by
  cases done with
  | true =>
    have same : u.dmabuf.bufsize = BitVec.ofNat 32 reach := by simpa using rxsize
    rw [← same]
    unfold nuPdmaUartRxCb
    cases h : nuUartFlush u fifo (u.dmabuf.bufsize - u.dmabuf.wroteOffset) with
    | error fault => simp [h, bind, Except.bind, pure, Except.pure, Except.map]
    | ok r => simp [h, bind, Except.bind, pure, Except.pure, Except.map]
  | false =>
    have size : nuPdmaTransferredByteGet pdma u.pdmaChanidRx u.dmabuf.bufsize =
        .ok (BitVec.ofNat 32 reach) := by simpa using rxsize
    unfold nuPdmaUartRxCb
    cases h : nuUartFlush u fifo (BitVec.ofNat 32 reach - u.dmabuf.wroteOffset) with
    | error fault => simp [size, h, bind, Except.bind, Except.map]
    | ok r => simp [size, h, bind, Except.bind, pure, Except.pure, Except.map]

theorem rxsize_eq {l : UartLine} {done : Bool} {bytes fifo : List Byte} {ctl : U32} (inv : UartInv l)
    (possible : l.Possible (.pdma done bytes fifo ctl)) :
    (if done then Except.ok (l.fill done bytes fifo ctl).uart.dmabuf.bufsize
      else nuPdmaTransferredByteGet (l.fill done bytes fifo ctl).pdma
        (l.fill done bytes fifo ctl).uart.pdmaChanidRx (l.fill done bytes fifo ctl).uart.dmabuf.bufsize) =
      .ok (BitVec.ofNat 32 (l.pos + bytes.length)) := by
  obtain ⟨reach, -⟩ := possible
  cases done with
  | true =>
    simp only [if_true] at reach ⊢
    rw [reach]
    simp [UartLine.fill, UartLine.size]
  | false =>
    simp only [Bool.false_eq_true, if_false] at reach ⊢
    apply nuPdmaTransferredByteGet_eq
    · exact inv.allocated
    · simpa [UartLine.fill, UartLine.size] using reach.2

theorem reach_le {l : UartLine} {done : Bool} {bytes fifo : List Byte} {ctl : U32}
    (possible : l.Possible (.pdma done bytes fifo ctl)) : l.pos + bytes.length ≤ l.size := by
  have reach := possible.1
  split_ifs at reach <;> omega

def UartLine.reporting (l : UartLine) (done : Bool) (bytes fifo : List Byte) (ctl : U32) : UartLine :=
  let filled := l.fill done bytes fifo ctl
  let reach := BitVec.ofNat 32 (l.pos + bytes.length)
  let offset := l.uart.dmabuf.wroteOffset
  { filled with
    uart := { filled.uart with
      userbuf := filled.uart.flushed fifo (reach - offset)
      dmabuf := { filled.uart.dmabuf with
        wroteOffset := (offset + reach) % l.uart.dmabuf.bufsize } }
    reported := l.reported + (fifo.length + (l.pos + bytes.length : Nat) - offset.toNat : Int) }

theorem uartStep_pdma {l : UartLine} {done : Bool} {bytes fifo : List Byte} {ctl : U32}
    (inv : UartInv l) (possible : l.Possible (.pdma done bytes fifo ctl)) :
    uartStep l (.pdma done bytes fifo ctl) =
      if fifo.length < tempbufSize then l.reporting done bytes fifo ctl
      else { l.fill done bytes fifo ctl with halted := true } := by
  have step := nuPdmaUartRxCb_eq fifo (rxsize_eq inv possible)
  have reach := reach_le possible
  have bound : l.size ≤ 65536 := inv.bound
  have inside : l.uart.userbuf.wroteOffset < l.uart.userbuf.bufsize := by
    rw [BitVec.lt_def, inv.userOffset, inv.sameSize]
    exact Nat.mod_lt _ inv.positive
  simp only [uartStep, inv.running, Bool.false_eq_true, if_false, step]
  split_ifs with below
  · have small : fifo.length < 64 := below
    have offset := inv.offsetBelow
    have count : (BitVec.ofNat 32 fifo.length + (BitVec.ofNat 32 (l.pos + bytes.length) -
        l.uart.dmabuf.wroteOffset)).toInt =
          fifo.length + (l.pos + bytes.length : Nat) - l.uart.dmabuf.wroteOffset.toNat := by
      rw [BitVec.toInt_eq_toNat_cond]
      simp only [BitVec.toNat_sub, BitVec.toNat_add, BitVec.toNat_ofNat, Nat.reducePow]
      split_ifs <;> omega
    rw [nuUartFlush_eq (u := (l.fill done bytes fifo ctl).uart) inside below]
    have reported := reported_rxEvent (BitVec.ofNat 32 fifo.length +
      (BitVec.ofNat 32 (l.pos + bytes.length) - l.uart.dmabuf.wroteOffset))
      (by rw [count]; omega) (by rw [count]; omega)
    rw [count] at reported
    simp only [Except.map, UartLine.reporting]
    rw [← reported]
    rfl
  · have full : tempbufSize ≤ fifo.length := by omega
    rw [nuUartFlush, nuUartDrainFifo_full full]
    rfl

theorem NuRxbufCtx.append_next {user : NuRxbufCtx} (src : Nat → Byte) (srcPut : U32)
    (xs : List Byte) (n : Nat) (positive : 0 < user.bufsize.toNat) (bound : user.bufsize.toNat ≤ 65536)
    (offset : user.wroteOffset.toNat = n % user.bufsize.toNat)
    (within : srcPut.toNat ≤ user.bufsize.toNat) (short : xs.length ≤ user.bufsize.toNat)
    (found : Ring.view user.bufsize.toNat src srcPut.toNat xs.length = xs) :
    (user.append src srcPut (BitVec.ofNat 32 xs.length)).pvRxBuf =
        Ring.put user.bufsize.toNat user.pvRxBuf n xs ∧
      (user.append src srcPut (BitVec.ofNat 32 xs.length)).wroteOffset.toNat =
        (n + xs.length) % user.bufsize.toNat := by
  have below := Nat.mod_lt n positive
  have count : (BitVec.ofNat 32 xs.length).toNat = xs.length := by
    rw [BitVec.toNat_ofNat]
    omega
  constructor
  · simp only [NuRxbufCtx.append]
    rw [count, nuUartFlushSync_eq_put src positive _ _ (by omega) within, found, offset,
      Ring.put_start_mod]
  · have sum : (user.wroteOffset + BitVec.ofNat 32 xs.length).toNat =
        n % user.bufsize.toNat + xs.length := by
      rw [BitVec.toNat_add, count, offset]
      omega
    simp only [NuRxbufCtx.append, BitVec.toNat_umod, sum, Nat.mod_add_mod]

theorem dma_new_eq {l : UartLine} {done : Bool} {bytes fifo : List Byte} {ctl : U32} (inv : UartInv l)
    (possible : l.Possible (.pdma done bytes fifo ctl))
    (agree : l.uart.dmabuf.wroteOffset.toNat = l.pos) :
    BitVec.ofNat 32 (l.pos + bytes.length) - l.uart.dmabuf.wroteOffset =
      BitVec.ofNat 32 bytes.length := by
  have reach := reach_le possible
  have bound : l.size ≤ 65536 := inv.bound
  apply BitVec.eq_of_toNat_eq
  rw [BitVec.toNat_sub, BitVec.toNat_ofNat, BitVec.toNat_ofNat, agree]
  omega

theorem flushed_tracked {l : UartLine} {done : Bool} {bytes fifo : List Byte} {ctl : U32}
    (inv : UartInv l) (possible : l.Possible (.pdma done bytes fifo ctl))
    (below : fifo.length < tempbufSize) (agree : l.uart.dmabuf.wroteOffset.toNat = l.pos) :
    ((l.fill done bytes fifo ctl).uart.flushed fifo (BitVec.ofNat 32 bytes.length)).pvRxBuf =
        Ring.put l.size l.uart.userbuf.pvRxBuf l.received.length (bytes ++ fifo) ∧
      ((l.fill done bytes fifo ctl).uart.flushed fifo
        (BitVec.ofNat 32 bytes.length)).wroteOffset.toNat =
        (l.received.length + (bytes ++ fifo).length) % l.size := by
  have reach := reach_le possible
  have room := possible.2
  have unread := inv.takenLe
  have user : l.uart.userbuf.bufsize.toNat = l.size := congrArg BitVec.toNat inv.sameSize
  have fits : (bytes ++ fifo).length ≤ l.size := by
    simp only [List.length_append] at room ⊢
    omega
  simp only [List.length_append] at fits
  obtain ⟨fromDma, offset⟩ := (l.uart.userbuf).append_next
    (Ring.put l.size l.uart.dmabuf.pvRxBuf l.pos bytes) l.uart.dmabuf.wroteOffset
    bytes l.received.length (by rw [user]; exact inv.positive)
    (by rw [user]; exact inv.bound) (by rw [user]; exact inv.userOffset)
    (by rw [user, agree]; omega) (by omega)
    (by rw [user, agree]; exact Ring.view_put_self (by omega))
  unfold NuUart.flushed
  change (((l.uart.userbuf).append (Ring.put l.size l.uart.dmabuf.pvRxBuf l.pos bytes)
      l.uart.dmabuf.wroteOffset (BitVec.ofNat 32 bytes.length)).append _ 0 _).pvRxBuf = _ ∧
    (((l.uart.userbuf).append (Ring.put l.size l.uart.dmabuf.pvRxBuf l.pos bytes)
      l.uart.dmabuf.wroteOffset (BitVec.ofNat 32 bytes.length)).append _ 0 _).wroteOffset.toNat = _
  have same : ((l.uart.userbuf).append (Ring.put l.size l.uart.dmabuf.pvRxBuf l.pos bytes)
      l.uart.dmabuf.wroteOffset (BitVec.ofNat 32 bytes.length)).bufsize.toNat = l.size := user
  generalize (l.uart.userbuf).append (Ring.put l.size l.uart.dmabuf.pvRxBuf l.pos bytes)
    l.uart.dmabuf.wroteOffset (BitVec.ofNat 32 bytes.length) = afterDma at fromDma offset same ⊢
  rw [user] at fromDma offset
  obtain ⟨fromFifo, offset⟩ := afterDma.append_next
    (Ring.put tempbufSize (fun _ => 0) 0 fifo) 0 fifo
    (l.received.length + bytes.length) (by rw [same]; exact inv.positive)
    (by rw [same]; exact inv.bound) (by rw [same]; exact offset) (Nat.zero_le _)
    (by rw [same]; omega) (view_tempbuf below (by rw [same]; omega))
  rw [same] at fromFifo offset
  constructor
  · rw [fromFifo, fromDma, Ring.put_append]
  · rw [offset, List.length_append, Nat.add_assoc]

theorem next_offset_iff {pos reach size : Nat} (below : pos < size) (inside : reach ≤ size) :
    (pos + reach) % size = (if reach = size then 0 else reach) ↔ pos = 0 := by
  split_ifs with full
  · rw [full, Nat.add_mod_right, Nat.mod_eq_of_lt below]
  · constructor
    · intro same
      by_cases wraps : pos + reach < size
      · rw [Nat.mod_eq_of_lt wraps] at same
        omega
      · rw [Nat.mod_eq_sub_mod (by omega), Nat.mod_eq_of_lt (by omega)] at same
        omega
    · intro atStart
      rw [atStart, Nat.zero_add, Nat.mod_eq_of_lt (by omega)]

theorem fill_pos {l : UartLine} {done : Bool} {bytes fifo : List Byte} {ctl : U32}
    (possible : l.Possible (.pdma done bytes fifo ctl)) :
    (l.fill done bytes fifo ctl).pos =
      if l.pos + bytes.length = l.size then 0 else l.pos + bytes.length := by
  have reach := possible.1
  cases done with
  | true =>
    simp only [if_true] at reach
    rw [if_pos reach]
    rfl
  | false =>
    simp only [Bool.false_eq_true, if_false] at reach
    rw [if_neg (by omega)]
    rfl

theorem UartInv.reporting {l : UartLine} {done : Bool} {bytes fifo : List Byte} {ctl : U32}
    (inv : UartInv l) (possible : l.Possible (.pdma done bytes fifo ctl))
    (tracked : l.Tracked (.pdma done bytes fifo ctl)) :
    UartInv (l.reporting done bytes fifo ctl) := by
  obtain ⟨began, below⟩ := tracked
  have agree := inv.offset.mpr began
  have reach := reach_le possible
  have positive := inv.positive
  have bound : l.size ≤ 65536 := inv.bound
  have posBelow := inv.posBelow
  have takenLe := inv.takenLe
  have counted := inv.counted
  have room := possible.2
  obtain ⟨stored, userOffset⟩ := flushed_tracked inv possible below agree
  rw [← dma_new_eq inv possible agree] at stored userOffset
  have nextOffset : (l.reporting done bytes fifo ctl).uart.dmabuf.wroteOffset.toNat =
      (l.pos + (l.pos + bytes.length)) % l.size := by
    simp only [UartLine.reporting, BitVec.toNat_umod, BitVec.toNat_add, BitVec.toNat_ofNat, agree]
    change _ % l.size = _
    congr 1
    omega
  have reported : (l.reporting done bytes fifo ctl).reported =
      (l.received ++ (bytes ++ fifo)).length := by
    simp only [UartLine.reporting, counted, agree, List.length_append]
    omega
  refine ⟨positive, inv.bound, inv.sameSize, inv.allocated, inv.running, ?_, ?_, ?_, ?_, reported,
    ?_, ?_, room⟩
  · change (l.fill done bytes fifo ctl).pos < l.size
    rw [fill_pos possible]
    split_ifs <;> omega
  · rw [nextOffset]
    exact Nat.mod_lt _ positive
  · rw [nextOffset]
    change _ = (l.fill done bytes fifo ctl).pos ↔ l.pos = 0
    rw [fill_pos possible]
    exact next_offset_iff posBelow reach
  · refine userOffset.trans ?_
    rw [← List.length_append]
    rfl
  · have unread : ((l.reporting done bytes fifo ctl).reported - l.taken.length).toNat =
        (l.received.length - l.taken.length) + (bytes ++ fifo).length := by
      rw [reported, List.length_append]
      omega
    have start : l.received.length = l.taken.length + (l.received.length - l.taken.length) := by
      omega
    have old := inv.handed
    have oldUnread : (l.reported - l.taken.length).toNat = l.received.length - l.taken.length := by
      omega
    rw [UartLine.handed, oldUnread] at old
    rw [start] at stored
    have seen : Ring.view l.size ((l.reporting done bytes fifo ctl).uart.userbuf.pvRxBuf)
        l.taken.length ((l.received.length - l.taken.length) + (bytes ++ fifo).length) =
        Ring.view l.size l.uart.userbuf.pvRxBuf l.taken.length
          (l.received.length - l.taken.length) ++ (bytes ++ fifo) := by
      refine (congrArg (fun ring => Ring.view l.size ring _ _) stored).trans ?_
      apply Ring.view_put
      simp only [List.length_append] at room ⊢
      omega
    have appended : l.taken ++ Ring.view l.size l.uart.userbuf.pvRxBuf l.taken.length
        (l.received.length - l.taken.length) ++ (bytes ++ fifo) = l.received ++ (bytes ++ fifo) := by
      rw [old]
    rw [UartLine.handed]
    refine Eq.trans ?_ appended
    rw [List.append_assoc, ← seen, ← unread]
    rfl
  · change l.taken.length ≤ (l.received ++ (bytes ++ fifo)).length
    rw [List.length_append]
    omega

theorem UartInv.read {l : UartLine} {n : Nat} (inv : UartInv l) (possible : l.Possible (.read n)) :
    UartInv (uartStep l (.read n)) := by
  have possible : (n : Int) ≤ l.reported - l.taken.length := possible
  have counted := inv.counted
  have room := inv.room
  have old := inv.handed
  have split : (l.reported - l.taken.length).toNat =
      n + (l.reported - (l.taken.length + n : Nat)).toNat := by omega
  have moved : uartStep l (.read n) =
      { l with
        taken := l.taken ++ Ring.view l.size l.uart.userbuf.pvRxBuf l.taken.length n } := by
    simp [uartStep, inv.running]
  rw [moved]
  refine ⟨inv.positive, inv.bound, inv.sameSize, inv.allocated, inv.running, inv.posBelow,
    inv.offsetBelow, inv.offset, inv.userOffset, counted, ?_, ?_, ?_⟩
  · rw [UartLine.handed, split, Ring.view_append, ← List.append_assoc] at old
    simp only [UartLine.handed, List.length_append, Ring.view_length]
    exact old
  · simp only [List.length_append, Ring.view_length]
    omega
  · change _ ≤ _ + l.size
    simp only [List.length_append, Ring.view_length]
    omega

theorem UartInv.step {l : UartLine} {e : UartEvent} (inv : UartInv l) (possible : l.Possible e)
    (tracked : l.Tracked e) : UartInv (uartStep l e) := by
  cases e with
  | read n => exact inv.read possible
  | pdma done bytes fifo ctl =>
    rw [uartStep_pdma inv possible, if_pos tracked.2]
    exact inv.reporting possible tracked

theorem tracked_of_delivers {l : UartLine} {e : UartEvent} (inv : UartInv l)
    (possible : l.Possible e) (delivers : (uartStep l e).Delivers) : l.Tracked e := by
  cases e with
  | read n => trivial
  | pdma done bytes fifo ctl =>
    have counted := inv.counted
    have reported := delivers.2
    rw [uartStep_pdma inv possible] at reported
    split_ifs at reported with below
    · have total : (l.reporting done bytes fifo ctl).received = l.received ++ (bytes ++ fifo) := rfl
      rw [total] at reported
      simp only [UartLine.reporting, List.length_append] at reported
      refine ⟨inv.offset.mp ?_, below⟩
      omega
    · have total : ({ l.fill done bytes fifo ctl with halted := true } : UartLine).received =
          l.received ++ (bytes ++ fifo) := rfl
      have none : ({ l.fill done bytes fifo ctl with halted := true } : UartLine).reported =
          l.reported := rfl
      rw [total, none, counted] at reported
      simp only [List.length_append] at reported
      have full : 64 ≤ fifo.length := Nat.le_of_not_lt below
      omega

theorem UartInv.start {pdma : PdmaState} {ch : Nat} {size : U32} (alloc : pdma.allocated ch)
    (positive : 0 < size.toNat) (bound : size.toNat ≤ nuPdmaMaxTxcnt) (userBytes dmaBytes : Nat → Byte) :
    UartInv (UartLine.start pdma ch userBytes dmaBytes size) where
  positive := positive
  bound := bound
  sameSize := rfl
  allocated := alloc
  running := rfl
  posBelow := positive
  offsetBelow := positive
  offset := by simp [UartLine.start, nuPdmaUartRxConfig]
  userOffset := by simp [UartLine.start, nuPdmaUartRxConfig]
  counted := rfl
  handed := by simp [UartLine.handed, UartLine.start, Ring.view]
  takenLe := Nat.le_refl _
  room := Nat.zero_le _

/-- In a run of possible events the serial layer always has the received stream, and the counts
always add up, exactly when every event follows one that began at the start of the DMA buffer and
finds less than a local buffer in the FIFO. -/
theorem uart_delivers_throughout_iff {pdma : PdmaState} {ch : Nat} {size : U32}
    (alloc : pdma.allocated ch) (positive : 0 < size.toNat) (bound : size.toNat ≤ nuPdmaMaxTxcnt)
    (userBytes dmaBytes : Nat → Byte) (es : List UartEvent)
    (possible : Runs.StepsMeet uartStep UartLine.Possible
      (UartLine.start pdma ch userBytes dmaBytes size) es) :
    (∀ pre, pre <+: es →
      (pre.foldl uartStep (UartLine.start pdma ch userBytes dmaBytes size)).Delivers) ↔
    Runs.StepsMeet uartStep UartLine.Tracked
      (UartLine.start pdma ch userBytes dmaBytes size) es := by
  have holds : ∀ l, UartInv l → l.Delivers := fun l inv => ⟨inv.handed, inv.counted⟩
  apply Runs.prefixes_hold_iff_of_allowed UartInv UartLine.Delivers holds ?_ ?_
    (UartInv.start alloc positive bound userBytes dmaBytes) es possible
  · intro l e inv can
    constructor
    · exact tracked_of_delivers inv can
    · intro tracked
      exact holds _ (inv.step can tracked)
  · intro l e inv can tracked
    exact inv.step can tracked

def sixteenByteLine : UartLine :=
  .start { PdmaState.powerOn with chnMask := fun _ => 1 } 0 (fun _ => 0) (fun _ => 0) 16

/-- A time-out control word with `left` of the bytes still to move. -/
def timeoutCtl (left : U32) : U32 :=
  ((left - 1) <<< pdmaDsctCtlTxcntPos) ||| pdmaSarFix ||| pdmaDarInc ||| pdmaReqSingle ||| pdmaOpBasic

/-- Twelve bytes, seen by time-outs after four, eight and twelve of them. -/
def threeTimeouts : List UartEvent :=
  [.pdma false [1, 2, 3, 4] [] (timeoutCtl 12), .pdma false [5, 6, 7, 8] [] (timeoutCtl 8),
    .pdma false [9, 10, 11, 12] [] (timeoutCtl 4)]

/-- The second time-out leaves twelve as the offset where the controller is at eight, so the last
four bytes are never handed over. -/
theorem threeTimeouts_loses_bytes :
    Runs.StepsMeet uartStep UartLine.Possible sixteenByteLine threeTimeouts ∧
      (threeTimeouts.foldl uartStep sixteenByteLine).received.length = 12 ∧
      (threeTimeouts.foldl uartStep sixteenByteLine).reported = 8 ∧
      ¬(threeTimeouts.foldl uartStep sixteenByteLine).Delivers := by
  have reported : (threeTimeouts.foldl uartStep sixteenByteLine).reported = 8 := by decide
  have total : (threeTimeouts.foldl uartStep sixteenByteLine).received.length = 12 := by decide
  refine ⟨?_, total, reported, ?_⟩
  · simp only [threeTimeouts, Runs.stepsMeet_cons]
    refine ⟨by decide, by decide, by decide, ?_⟩
    intro pre e he
    simp at he
  · rintro ⟨-, counted⟩
    rw [reported, total] at counted
    exact absurd counted (by decide)

/-- One round of the buffer: a time-out with a byte left in the FIFO, a read, and the done event. -/
def oneRound : List UartEvent :=
  [.pdma false [1, 2] [3] (timeoutCtl 14), .read 3, .pdma true (List.replicate 14 7) [8] 0]

theorem uart_delivers_oneRound :
    (oneRound.foldl uartStep sixteenByteLine).Delivers ∧
      (oneRound.foldl uartStep sixteenByteLine).reported = 18 := by
  have possible : Runs.StepsMeet uartStep UartLine.Possible sixteenByteLine oneRound := by
    simp only [oneRound, Runs.stepsMeet_cons]
    refine ⟨by decide, by decide, by decide, ?_⟩
    intro pre e he
    simp at he
  have tracked : Runs.StepsMeet uartStep UartLine.Tracked sixteenByteLine oneRound := by
    simp only [oneRound, Runs.stepsMeet_cons]
    refine ⟨⟨by decide, by decide⟩, trivial, ⟨by decide, by decide⟩, ?_⟩
    intro pre e he
    simp at he
  have throughout := (uart_delivers_throughout_iff (by decide) (by decide) (by decide) _ _ oneRound
    possible).mpr tracked
  exact ⟨throughout oneRound List.prefix_rfl, by decide⟩

end NuMakerMA35
