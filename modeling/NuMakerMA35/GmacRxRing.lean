import NuMakerMA35.GmacRx

namespace NuMakerMA35

open Words NuMakerMA35.Ring

def rxFullLength (i : Nat) : U32 :=
  (if i = receiveDescSize - 1 then rxDescEndOfRing else 0) ||| BitVec.ofNat 32 pktFrameBufSize

section Descriptors

variable {desc : DmaDesc} {i : Nat}

theorem rxInit_empty (last : Bool) : synopGMACIsDescEmpty (synopGMACRxDescInitRing last) := by
  cases last <;> decide

theorem rxInit_not_owned (last : Bool) :
    ¬synopGMACIsDescOwnedByDma (synopGMACRxDescInitRing last) := by
  cases last <;> decide

theorem rxFull_not_empty (h : desc.length = rxFullLength i) : ¬synopGMACIsDescEmpty desc := by
  unfold synopGMACIsDescEmpty
  rw [h, rxFullLength]
  split_ifs <;> decide

theorem rxFull_last (h : desc.length = rxFullLength i) :
    synopGMACIsLastRxDesc desc ↔ i = receiveDescSize - 1 := by
  unfold synopGMACIsLastRxDesc
  rw [h, rxFullLength]
  split_ifs with last
  · exact iff_of_true (by decide) last
  · exact iff_of_false (by decide) last

theorem rxFull_succ (h : desc.length = rxFullLength i) (hi : i < receiveDescSize) :
    (if synopGMACIsLastRxDesc desc then 0 else i + 1) = (i + 1) % receiveDescSize := by
  rw [succ_mod hi]
  by_cases last : i = receiveDescSize - 1
  · rw [if_pos ((rxFull_last h).mpr last), if_pos last]
  · rw [if_neg (mt (rxFull_last h).mp last), if_neg last]

theorem owned_of_status (h : desc.status = descOwnByDma) : synopGMACIsDescOwnedByDma desc := by
  unfold synopGMACIsDescOwnedByDma
  rw [h]
  decide

theorem RxFrame.not_owned {frame : RxFrame} (h : desc.status = frame.status) :
    ¬synopGMACIsDescOwnedByDma desc := by
  unfold synopGMACIsDescOwnedByDma
  rw [h, frame.given]
  decide

end Descriptors

namespace GmacRx

theorem setRxQptr_refills {s : GmacRx} {i : Nat} (here : s.rxNextDesc = i)
    (hi : i < receiveDescSize)
    (emptied : s.descs i = synopGMACRxDescInitRing (i = receiveDescSize - 1)) (buffer : U32) :
    s.synopGMACSetRxQptr buffer (BitVec.ofNat 32 pktFrameBufSize) = ((s.rxNext : Int), { s with
      descs := Function.update s.descs i ⟨descOwnByDma, rxFullLength i, buffer⟩
      rxNext := if i = receiveDescSize - 1 then 0 else s.rxNext + 1
      rxNextDesc := (i + 1) % receiveDescSize
      busyRxDesc := s.busyRxDesc + 1 }) := by
  subst here
  unfold synopGMACSetRxQptr
  have full : (s.descs s.rxNextDesc).length |||
      (BitVec.ofNat 32 pktFrameBufSize &&& descSize1Mask) = rxFullLength s.rxNextDesc := by
    rw [emptied, rxFullLength, synopGMACRxDescInitRing]
    by_cases last : s.rxNextDesc = receiveDescSize - 1
    · simp only [last, decide_true, if_true]
      decide
    · simp only [last, decide_false, if_false]
      decide
  have always : ¬s.rxNext % moduloInterrupt ≠ 0 := not_not.mpr (Nat.mod_one s.rxNext)
  rw [if_neg (not_not.mpr (emptied ▸ rxInit_empty _))]
  dsimp only
  rw [if_neg always, full]
  have last : synopGMACIsLastRxDesc ⟨descOwnByDma, rxFullLength s.rxNextDesc, buffer⟩ ↔
      s.rxNextDesc = receiveDescSize - 1 := rxFull_last rfl
  simp only [last, succ_mod hi]

theorem getRxQptr_given {s : GmacRx} {i : Nat} (here : s.rxBusyDesc = i)
    (hi : i < receiveDescSize) (given : ¬synopGMACIsDescOwnedByDma (s.descs i))
    (length : (s.descs i).length = rxFullLength i) :
    s.synopGMACGetRxQptr = (some ((s.descs i).status, (s.descs i).buffer1), { s with
      rxBusy := if i = receiveDescSize - 1 then 0 else s.rxBusy + 1
      rxBusyDesc := (i + 1) % receiveDescSize
      descs := Function.update s.descs i (synopGMACRxDescInitRing (i = receiveDescSize - 1))
      busyRxDesc := s.busyRxDesc - 1 }) := by
  subst here
  unfold synopGMACGetRxQptr
  rw [if_neg given, if_neg (rxFull_not_empty length)]
  simp only [rxFull_last length, succ_mod hi]

theorem getRxQptr_takes {s : GmacRx} {i : Nat} {frame : RxFrame} (here : s.rxBusyDesc = i)
    (hi : i < receiveDescSize) (status : (s.descs i).status = frame.status)
    (length : (s.descs i).length = rxFullLength i) :
    s.synopGMACGetRxQptr = (some (frame.status, (s.descs i).buffer1), { s with
      rxBusy := if i = receiveDescSize - 1 then 0 else s.rxBusy + 1
      rxBusyDesc := (i + 1) % receiveDescSize
      descs := Function.update s.descs i (synopGMACRxDescInitRing (i = receiveDescSize - 1))
      busyRxDesc := s.busyRxDesc - 1 }) := by
  rw [getRxQptr_given here hi (RxFrame.not_owned status) length, status]

theorem getRxQptr_waits {s : GmacRx} (owned : synopGMACIsDescOwnedByDma (s.descs s.rxBusyDesc)) :
    s.synopGMACGetRxQptr = (none, s) := if_pos owned

end GmacRx

/-- The frames waiting when one more arrives; a full ring drops it. -/
def rxArrive (queue : List RxFrame) (frame : RxFrame) : List RxFrame :=
  if queue.length < receiveDescSize then queue ++ [frame] else queue

/-- The ring as a queue of frames: those in `done` have been passed up, those in `queue` lie in
the descriptors from the driver's on, and all others wait for the DMA. -/
structure RxQueue (s : GmacRx) (done queue : List RxFrame) : Prop where
  short : queue.length ≤ receiveDescSize
  busy : s.rxBusyDesc < receiveDescSize
  next : s.rxNextDesc = s.rxBusyDesc
  dma : s.dma = (s.rxBusyDesc + queue.length) % receiveDescSize
  length : ∀ i, i < receiveDescSize → (s.descs i).length = rxFullLength i
  buffer : ∀ i, i < receiveDescSize → (s.descs i).buffer1 = s.frames.ptr i
  unread : ∀ k frame, queue[k]? = some frame →
    (s.descs ((s.rxBusyDesc + k) % receiveDescSize)).status = frame.status ∧
      slice s.mem (s.frames.addr ((s.rxBusyDesc + k) % receiveDescSize)) frame.data.length =
        frame.data
  free : ∀ k, queue.length ≤ k → k < receiveDescSize →
    (s.descs ((s.rxBusyDesc + k) % receiveDescSize)).status = descOwnByDma
  arrived : s.arrived = done ++ queue
  passed : s.passed = done.map fun frame => some frame.packet
  good : ∀ frame ∈ done, frame.Good

theorem receiveDescSize_pos : 0 < receiveDescSize := by decide

namespace RxQueue

variable {s : GmacRx} {done queue : List RxFrame}

theorem round (k : Nat) : (s.rxBusyDesc + k) % receiveDescSize < receiveDescSize :=
  Nat.mod_lt _ receiveDescSize_pos

theorem not_empty (h : RxQueue s done queue) {i : Nat} (hi : i < receiveDescSize) :
    ¬synopGMACIsDescEmpty (s.descs i) := rxFull_not_empty (h.length i hi)

theorem owned_iff (h : RxQueue s done queue) {k : Nat} (hk : k < receiveDescSize) :
    synopGMACIsDescOwnedByDma (s.descs ((s.rxBusyDesc + k) % receiveDescSize)) ↔
      queue.length ≤ k := by
  constructor
  · intro owned
    by_contra short
    obtain ⟨status, -⟩ := h.unread k _ (List.getElem?_eq_getElem (Nat.lt_of_not_le short))
    exact RxFrame.not_owned status owned
  · intro long
    exact owned_of_status (h.free k long hk)

theorem unread_eq (h : RxQueue s done queue) : s.unread = queue.length := by
  have waiting (k : Nat) (hk : k < receiveDescSize) :
      (decide (¬synopGMACIsDescOwnedByDma (s.descs ((s.rxBusyDesc + k) % receiveDescSize)) ∧
        ¬synopGMACIsDescEmpty (s.descs ((s.rxBusyDesc + k) % receiveDescSize))) = true ↔
          k < queue.length) := by
    have full := h.not_empty (round (s := s) k)
    simp only [decide_eq_true_eq, full, not_false_eq_true, and_true, h.owned_iff hk]
    omega
  exact countP_round h.short waiting

theorem available_add_unread (h : RxQueue s done queue) :
    s.available + s.unread = receiveDescSize := by
  have parts := List.length_eq_countP_add_countP
    (fun i => decide (synopGMACIsDescOwnedByDma (s.descs i))) (l := List.range receiveDescSize)
  have others : s.unread = (List.range receiveDescSize).countP
      fun i => ¬decide (synopGMACIsDescOwnedByDma (s.descs i)) = true := by
    apply List.countP_congr
    intro i hi
    have full := h.not_empty (List.mem_range.mp hi)
    simp [full]
  rw [List.length_range] at parts
  unfold GmacRx.available
  rw [others]
  exact parts.symm

theorem sound (h : RxQueue s done queue) : s.RingSound where
  count := h.available_add_unread
  distinct i j hi hj other same := by
    rw [h.buffer i hi, h.buffer j hj] at same
    exact other (s.frames.ptr_injective hi hj same)
  kept k hk := ⟨k, hk, h.buffer k hk⟩
  passedUp := by
    have processed : s.arrived.take (s.arrived.length - s.unread) = done := by
      rw [h.unread_eq, h.arrived]
      simp
    have all : done.filter (fun frame => decide frame.Good) = done :=
      List.filter_eq_self.mpr fun frame hf => decide_eq_true (h.good frame hf)
    rw [processed, all, h.passed]

theorem round_ne {k j : Nat} (hk : k < j) (hj : j < receiveDescSize) :
    (s.rxBusyDesc + k) % receiveDescSize ≠ (s.rxBusyDesc + j) % receiveDescSize :=
  mod_ne_of_lt (Nat.add_lt_add_left hk _) (by omega)

theorem addr_outside {i j : Nat} (other : i ≠ j) {frame : RxFrame} {n : Nat}
    (fits : n ≤ pktFrameBufSize) :
    s.frames.addr i + n ≤ s.frames.addr j ∨
      s.frames.addr j + frame.data.length ≤ s.frames.addr i := by
  have data := frame.fits
  rcases Nat.lt_or_gt_of_ne other with below | above
  · have apart := s.frames.addr_apart below
    omega
  · have apart := s.frames.addr_apart above
    omega

theorem receive (h : RxQueue s done queue) (frame : RxFrame) :
    RxQueue (s.receive frame) done (rxArrive queue frame) := by
  unfold GmacRx.receive rxArrive
  by_cases room : queue.length < receiveDescSize
  · have here : s.dma < receiveDescSize := h.dma ▸ round queue.length
    have owned : synopGMACIsDescOwnedByDma (s.descs s.dma) := by
      rw [h.dma]
      exact (h.owned_iff room).mpr le_rfl
    have place := s.frames.ptr_toNat here
    rw [if_pos room, if_pos owned, h.buffer s.dma here, place]
    have apart {k : Nat} (hk : k ≠ queue.length) (low : k < receiveDescSize) :
        (s.rxBusyDesc + k) % receiveDescSize ≠ s.dma := by
      rw [h.dma]
      rcases Nat.lt_or_gt_of_ne hk with below | above
      · exact round_ne below room
      · exact (round_ne above low).symm
    refine ⟨?_, h.busy, h.next, ?_, ?_, ?_, ?_, ?_, ?_, h.passed, h.good⟩
    · rw [List.length_append]
      exact room
    · dsimp only
      rw [rxFull_succ (h.length s.dma here) here, h.dma, Nat.mod_add_mod, List.length_append,
        List.length_singleton, Nat.add_assoc]
    · intro i hi
      by_cases same : i = s.dma
      · subst same
        simpa using h.length s.dma here
      · simpa [same] using h.length i hi
    · intro i hi
      by_cases same : i = s.dma
      · subst same
        simp
      · simpa [same] using h.buffer i hi
    · intro k other get
      by_cases last : k = queue.length
      · subst last
        have same : frame = other := by simpa using get
        subst same
        dsimp only
        rw [← h.dma, Function.update_self, slice_blit]
        exact ⟨rfl, rfl⟩
      · have early : k < queue.length := by
          have bound := (List.getElem?_eq_some_iff.mp get).1
          simp only [List.length_append, List.length_singleton] at bound
          omega
        rw [List.getElem?_append_left early] at get
        obtain ⟨status, data⟩ := h.unread k other get
        have ne := apart last (by omega)
        dsimp only
        rw [Function.update_of_ne ne, slice_blit_outside (addr_outside ne other.fits)]
        exact ⟨status, data⟩
    · intro k long low
      simp only [List.length_append, List.length_singleton] at long
      dsimp only
      rw [Function.update_of_ne (apart (by omega) low)]
      exact h.free k (by omega) low
    · dsimp only
      rw [h.arrived, List.append_assoc]
  · have full : queue.length = receiveDescSize := by
      have := h.short
      omega
    have taken : ¬synopGMACIsDescOwnedByDma (s.descs s.dma) := by
      have first := h.owned_iff receiveDescSize_pos
      rw [Nat.add_zero, Nat.mod_eq_of_lt h.busy] at first
      rw [h.dma, full, Nat.add_mod_right, Nat.mod_eq_of_lt h.busy, first]
      exact Nat.not_le.mpr (full ▸ receiveDescSize_pos)
    rw [if_neg room, if_neg taken]
    exact h

theorem receives (h : RxQueue s done queue) (frames : List RxFrame) :
    RxQueue (frames.foldl GmacRx.receive s) done (frames.foldl rxArrive queue) := by
  induction frames generalizing s queue with
  | nil => exact h
  | cons frame frames ih => exact ih (h.receive frame)

end RxQueue

theorem good_pktLen {frame : RxFrame} (good : frame.Good) :
    (synopGMACGetRxDescFrameLength frame.status - ethernetCrc).toInt =
      ((frame.data.length - 4 : Nat) : Int) ∧ 4 < frame.data.length := by
  obtain ⟨valid, long⟩ := good
  have whole := frame.whole valid
  have fits := frame.fits
  have four : ethernetCrc.toNat = 4 := rfl
  have value : (synopGMACGetRxDescFrameLength frame.status - ethernetCrc).toNat =
      frame.data.length - 4 := by
    rw [BitVec.toNat_sub_of_le (by rw [BitVec.le_def]; omega), four, whole]
  refine ⟨?_, by omega⟩
  unfold pktFrameBufSize at fits
  rw [BitVec.toInt_eq_toNat_of_lt (by omega), value]

theorem tiny_pktLen {status : U32} (tiny : ¬4 < (synopGMACGetRxDescFrameLength status).toNat) :
    (synopGMACGetRxDescFrameLength status - ethernetCrc).toInt ≤ 0 := by
  have four : ethernetCrc.toNat = 4 := rfl
  rw [BitVec.toInt_sub, BitVec.toInt_eq_toNat_of_lt (by omega),
    BitVec.toInt_eq_toNat_of_lt (by rw [four]; decide), four, Int.bmod_eq_of_le (by omega) (by omega)]
  omega

namespace RxQueue

variable {s : GmacRx} {done queue : List RxFrame} {frame : RxFrame}

theorem handles_nothing (h : RxQueue s done []) : s.synopHandleReceivedData = (0, 0, s) := by
  have owned := (h.owned_iff receiveDescSize_pos).mpr le_rfl
  rw [Nat.add_zero, Nat.mod_eq_of_lt h.busy] at owned
  unfold GmacRx.synopHandleReceivedData
  rw [GmacRx.getRxQptr_waits owned]

/-- The state behind `synopGMACGetRxQptr`: the driver's descriptor is empty. -/
def taken (s : GmacRx) : GmacRx := { s with
  rxBusy := if s.rxBusyDesc = receiveDescSize - 1 then 0 else s.rxBusy + 1
  rxBusyDesc := (s.rxBusyDesc + 1) % receiveDescSize
  descs := Function.update s.descs s.rxBusyDesc
    (synopGMACRxDescInitRing (s.rxBusyDesc = receiveDescSize - 1))
  busyRxDesc := s.busyRxDesc - 1 }

theorem gets (h : RxQueue s done (frame :: queue)) :
    s.synopGMACGetRxQptr = (some (frame.status, s.frames.ptr s.rxBusyDesc), taken s) := by
  obtain ⟨status, -⟩ := h.unread 0 frame rfl
  rw [Nat.add_zero, Nat.mod_eq_of_lt h.busy] at status
  rw [GmacRx.getRxQptr_takes rfl h.busy status (h.length _ h.busy), h.buffer _ h.busy]
  rfl

theorem handles (h : RxQueue s done (frame :: queue)) :
    s.synopHandleReceivedData = if synopGMACIsRxDescValid frame.status then
      ((synopGMACGetRxDescFrameLength frame.status - ethernetCrc).toInt,
        s.frames.ptr s.rxBusyDesc, taken s) else (0, 0, taken s) := by
  unfold GmacRx.synopHandleReceivedData
  rw [h.gets]

/-- The state behind a good frame: its packet is passed up and its descriptor refilled. -/
def refilled (s : GmacRx) (pbuf : Option (List Byte)) : GmacRx := { s with
  rxNext := if s.rxBusyDesc = receiveDescSize - 1 then 0 else s.rxNext + 1
  rxBusy := if s.rxBusyDesc = receiveDescSize - 1 then 0 else s.rxBusy + 1
  rxNextDesc := (s.rxBusyDesc + 1) % receiveDescSize
  rxBusyDesc := (s.rxBusyDesc + 1) % receiveDescSize
  descs := Function.update s.descs s.rxBusyDesc
    ⟨descOwnByDma, rxFullLength s.rxBusyDesc, s.frames.ptr s.rxBusyDesc⟩
  busyRxDesc := s.busyRxDesc - 1 + 1
  passed := s.passed ++ [pbuf] }

theorem sets (h : RxQueue s done (frame :: queue)) (pbuf : Option (List Byte)) :
    { ((taken s).synopGMACSetRxQptr (s.frames.ptr s.rxBusyDesc)
        (BitVec.ofNat 32 pktFrameBufSize)).2 with passed := s.passed ++ [pbuf] } =
      refilled s pbuf := by
  rw [GmacRx.setRxQptr_refills (s := taken s) h.next h.busy (Function.update_self ..)]
  simp only [taken, refilled, Function.update_idem]

theorem packet_slice (h : RxQueue s done (frame :: queue)) :
    slice s.mem (s.frames.ptr s.rxBusyDesc).toNat (frame.data.length - 4) = frame.packet := by
  obtain ⟨-, data⟩ := h.unread 0 frame rfl
  rw [Nat.add_zero, Nat.mod_eq_of_lt h.busy] at data
  rw [s.frames.ptr_toNat h.busy, ← slice_take s.mem _ (Nat.sub_le frame.data.length 4), data]
  rfl

theorem refill (h : RxQueue s done (frame :: queue)) (good : frame.Good) :
    RxQueue (refilled s (some frame.packet)) (done ++ [frame]) queue := by
  have long := h.short
  simp only [List.length_cons] at long
  have step (k : Nat) : ((s.rxBusyDesc + 1) % receiveDescSize + k) % receiveDescSize =
      (s.rxBusyDesc + (k + 1)) % receiveDescSize := by
    rw [Nat.mod_add_mod]
    congr 1
    omega
  have own : s.rxBusyDesc = (s.rxBusyDesc + 0) % receiveDescSize :=
    (Nat.mod_eq_of_lt h.busy).symm
  refine ⟨by omega, Nat.mod_lt _ receiveDescSize_pos, rfl, ?_, ?_, ?_, ?_, ?_, ?_, ?_, ?_⟩
  · rw [refilled]
    dsimp only
    rw [step, h.dma, List.length_cons]
  · intro i hi
    by_cases same : i = s.rxBusyDesc
    · subst same
      simp [refilled]
    · simpa [refilled, same] using h.length i hi
  · intro i hi
    by_cases same : i = s.rxBusyDesc
    · subst same
      simp [refilled]
    · simpa [refilled, same] using h.buffer i hi
  · intro k other get
    have low := (List.getElem?_eq_some_iff.mp get).1
    have ne : (s.rxBusyDesc + (k + 1)) % receiveDescSize ≠ s.rxBusyDesc := by
      rw [own]
      nth_rewrite 1 [← own]
      exact (round_ne (Nat.succ_pos k) (by omega)).symm
    have before := h.unread (k + 1) other (by simpa using get)
    rw [refilled]
    dsimp only
    rw [step, Function.update_of_ne ne]
    exact before
  · intro k after low
    rw [refilled]
    dsimp only
    rw [step]
    by_cases last : k + 1 = receiveDescSize
    · rw [last, Nat.add_mod_right, Nat.mod_eq_of_lt h.busy, Function.update_self]
    · have ne : (s.rxBusyDesc + (k + 1)) % receiveDescSize ≠ s.rxBusyDesc := by
        rw [own]
        nth_rewrite 1 [← own]
        exact (round_ne (Nat.succ_pos k) (by omega)).symm
      rw [Function.update_of_ne ne]
      exact h.free (k + 1) (by simpa using after) (by omega)
  · rw [List.append_assoc]
    exact h.arrived
  · rw [refilled]
    dsimp only
    rw [h.passed, List.map_append]
    rfl
  · intro other mem
    rcases List.mem_append.mp mem with old | new
    · exact h.good other old
    · rw [List.mem_singleton.mp new]
      exact good

theorem taken_not_sound (h : RxQueue s done (frame :: queue)) : ¬(taken s).RingSound := by
  intro sound
  have emptied : (taken s).descs s.rxBusyDesc =
      synopGMACRxDescInitRing (s.rxBusyDesc = receiveDescSize - 1) := Function.update_self ..
  have missing := countP_add_lt (l := List.range receiveDescSize)
    (p := fun i => decide (synopGMACIsDescOwnedByDma ((taken s).descs i)))
    (q := fun i => decide (¬synopGMACIsDescOwnedByDma ((taken s).descs i) ∧
      ¬synopGMACIsDescEmpty ((taken s).descs i)))
    (fun i owned => by simpa using fun other => absurd (of_decide_eq_true owned) other)
    (List.mem_range.mpr h.busy)
    (decide_eq_false (by rw [emptied]; exact rxInit_not_owned _))
    (decide_eq_false (by rw [emptied]; exact fun both => both.2 (rxInit_empty _)))
  rw [List.length_range] at missing
  exact absurd sound.count (Nat.ne_of_lt missing)

end RxQueue

/-- What the loop needs of the frames waiting and of its turns: each frame it comes to is good
and gets a pbuf. -/
def RxTurnsGood : List RxTurn → List RxFrame → Prop
  | [], _ => True
  | turn :: turns, queue =>
    match turn.arrivals.foldl rxArrive queue with
    | [] => True
    | frame :: queue =>
      frame.Good ∧ turn.allocated = true ∧ (turn.accepted = true → RxTurnsGood turns queue)

namespace GmacRx

section Turn

variable {s t : GmacRx} {turn : RxTurn} {turns : List RxTurn} {done queue : List RxFrame}
  {frame : RxFrame}

def pushed (t : GmacRx) (allocated : Bool) (pktFrame : U32) (pktLen : Int) : GmacRx :=
  { (t.synopGMACSetRxQptr pktFrame (BitVec.ofNat 32 pktFrameBufSize)).2 with
    passed := (t.synopGMACSetRxQptr pktFrame (BitVec.ofNat 32 pktFrameBufSize)).2.passed ++
      [if allocated then some (slice t.mem pktFrame.toNat pktLen.toNat) else none] }

theorem ethRxPush_cons {pktLen : Int} {pktFrame : U32}
    (handled : (turn.arrivals.foldl receive s).synopHandleReceivedData = (pktLen, pktFrame, t)) :
    ethRxPush (turn :: turns) s = if pktLen ≤ 0 then t
      else if turn.accepted then ethRxPush turns (t.pushed turn.allocated pktFrame pktLen)
      else t.pushed turn.allocated pktFrame pktLen := by
  rw [ethRxPush]
  dsimp only
  rw [handled]
  rfl

theorem ethRxPush_nothing (arrived : turn.arrivals.foldl receive s = t) (h : RxQueue t done []) :
    ethRxPush (turn :: turns) s = t := by
  subst arrived
  rw [ethRxPush_cons h.handles_nothing]
  rfl

theorem ethRxPush_bad (arrived : turn.arrivals.foldl receive s = t)
    (h : RxQueue t done (frame :: queue)) (bad : ¬frame.Good) :
    ethRxPush (turn :: turns) s = RxQueue.taken t := by
  have handled := h.handles
  subst arrived
  by_cases valid : synopGMACIsRxDescValid frame.status
  · rw [if_pos valid] at handled
    rw [ethRxPush_cons handled, if_pos (tiny_pktLen fun long => bad ⟨valid, long⟩)]
  · rw [if_neg valid] at handled
    rw [ethRxPush_cons handled]
    rfl

theorem ethRxPush_good (arrived : turn.arrivals.foldl receive s = t)
    (h : RxQueue t done (frame :: queue)) (good : frame.Good) :
    ethRxPush (turn :: turns) s =
      if turn.accepted then
        ethRxPush turns (RxQueue.refilled t (if turn.allocated then some frame.packet else none))
      else RxQueue.refilled t (if turn.allocated then some frame.packet else none) := by
  obtain ⟨pktLen, long⟩ := good_pktLen good
  have handled := h.handles
  rw [if_pos good.1, pktLen] at handled
  have before : ((RxQueue.taken t).synopGMACSetRxQptr (t.frames.ptr t.rxBusyDesc)
      (BitVec.ofNat 32 pktFrameBufSize)).2.passed = t.passed := by
    rw [setRxQptr_refills (s := RxQueue.taken t) h.next h.busy (Function.update_self ..)]
    rfl
  have next : (RxQueue.taken t).pushed turn.allocated (t.frames.ptr t.rxBusyDesc)
      ((frame.data.length - 4 : Nat) : Int) =
        RxQueue.refilled t (if turn.allocated then some frame.packet else none) := by
    rw [← h.sets, ← h.packet_slice, pushed, before, Int.toNat_natCast]
    rfl
  subst arrived
  rw [ethRxPush_cons handled, if_neg (by omega), next]

end Turn

theorem receive_passed (s : GmacRx) (frame : RxFrame) : (s.receive frame).passed = s.passed := by
  unfold receive
  dsimp only
  split_ifs <;> rfl

theorem receives_passed (s : GmacRx) (frames : List RxFrame) :
    (frames.foldl receive s).passed = s.passed := by
  induction frames generalizing s with
  | nil => rfl
  | cons frame frames ih =>
    rw [List.foldl_cons, ih, receive_passed]

theorem setRxQptr_passed (s : GmacRx) (buffer1 length1 : U32) :
    (s.synopGMACSetRxQptr buffer1 length1).2.passed = s.passed := by
  unfold synopGMACSetRxQptr
  dsimp only
  split_ifs <;> rfl

theorem getRxQptr_passed (s : GmacRx) : s.synopGMACGetRxQptr.2.passed = s.passed := by
  unfold synopGMACGetRxQptr
  dsimp only
  split_ifs <;> rfl

theorem handles_passed (s : GmacRx) : s.synopHandleReceivedData.2.2.passed = s.passed := by
  have same := getRxQptr_passed s
  unfold synopHandleReceivedData
  rcases taken : s.synopGMACGetRxQptr with ⟨none | ⟨status, buffer⟩, t⟩
  · rw [taken] at same
    exact same
  · rw [taken] at same
    dsimp only
    split_ifs <;> exact same

theorem passed_start (turns : List RxTurn) : ∀ s : GmacRx,
    s.passed <+: (ethRxPush turns s).passed := by
  induction turns with
  | nil =>
    intro s
    exact List.prefix_refl _
  | cons turn turns ih =>
    intro s
    rcases handled : (turn.arrivals.foldl receive s).synopHandleReceivedData with ⟨pktLen, frame, t⟩
    have same : t.passed = s.passed := by
      have kept := handles_passed (turn.arrivals.foldl receive s)
      rw [handled, receives_passed] at kept
      exact kept
    have more : s.passed <+: (t.pushed turn.allocated frame pktLen).passed := by
      rw [pushed, setRxQptr_passed, same]
      exact List.prefix_append _ _
    rw [ethRxPush_cons handled]
    split_ifs
    · rw [same]
    · exact more.trans (ih _)
    · exact more

theorem null_not_sound {s : GmacRx} (null : none ∈ s.passed) : ¬s.RingSound := by
  intro sound
  rw [sound.passedUp] at null
  simp at null

theorem ethRxPush_sound_iff {turns : List RxTurn} : ∀ {s : GmacRx} {done queue : List RxFrame},
    RxQueue s done queue →
      ((ethRxPush turns s).RingSound ↔ RxTurnsGood turns queue) ∧
        (RxTurnsGood turns queue → ∃ done queue, RxQueue (ethRxPush turns s) done queue) := by
  induction turns with
  | nil =>
    intro s done queue h
    exact ⟨iff_of_true h.sound trivial, fun _ => ⟨done, queue, h⟩⟩
  | cons turn turns ih =>
    intro s done queue h
    have arrived := h.receives turn.arrivals
    unfold RxTurnsGood
    cases waiting : turn.arrivals.foldl rxArrive queue with
    | nil =>
      rw [waiting] at arrived
      rw [ethRxPush_nothing rfl arrived]
      exact ⟨iff_of_true arrived.sound trivial, fun _ => ⟨done, [], arrived⟩⟩
    | cons frame rest =>
      rw [waiting] at arrived
      dsimp only
      by_cases good : frame.Good
      · rw [ethRxPush_good rfl arrived good]
        cases allocated : turn.allocated with
        | false =>
          -- without a pbuf the stack is given a null packet
          have null : none ∈ (RxQueue.refilled (turn.arrivals.foldl receive s) none).passed := by
            simp [RxQueue.refilled]
          refine ⟨iff_of_false (null_not_sound ?_) (by simp), by simp⟩
          cases turn.accepted with
          | false => exact null
          | true => exact (passed_start turns _).subset null
        | true =>
          have next := arrived.refill good
          cases accepted : turn.accepted with
          | false =>
            simp only [Bool.false_eq_true, if_false, if_true, good, true_and, false_implies]
            exact ⟨iff_of_true next.sound trivial, fun _ => ⟨_, _, next⟩⟩
          | true =>
            simp only [if_true, good, true_and, true_implies]
            exact ih next
      · rw [ethRxPush_bad rfl arrived good]
        exact ⟨iff_of_false arrived.taken_not_sound fun all => good all.1,
          fun all => absurd all.1 good⟩

structure Filling (s : GmacRx) (k : Nat) : Prop where
  next : s.rxNextDesc = k % receiveDescSize
  filled : ∀ i, i < k → s.descs i = ⟨descOwnByDma, rxFullLength i, s.frames.ptr i⟩
  emptied : ∀ i, k ≤ i → s.descs i = synopGMACRxDescInitRing (i = receiveDescSize - 1)
  fresh : s.rxBusyDesc = 0 ∧ s.dma = 0 ∧ s.arrived = [] ∧ s.passed = []

theorem setRxFrames_filling {n : Nat} : ∀ {k : Nat} {s : GmacRx}, k + n = receiveDescSize →
    s.Filling k → (setRxFrames n k s).Filling receiveDescSize := by
  induction n with
  | zero =>
    intro k s all h
    rw [Nat.add_zero] at all
    exact all ▸ h
  | succ n ih =>
    intro k s all h
    have hk : k < receiveDescSize := by omega
    have here : s.rxNextDesc = k := h.next.trans (Nat.mod_eq_of_lt hk)
    unfold setRxFrames
    rw [setRxQptr_refills here hk (h.emptied k le_rfl)]
    dsimp only
    rw [if_neg (by omega)]
    refine ih (by omega) ⟨rfl, ?_, ?_, h.fresh⟩
    · intro i hi
      by_cases same : i = k
      · subst same
        simp
      · simpa [same] using h.filled i (by omega)
    · intro i hi
      simpa [show i ≠ k by omega] using h.emptied i (by omega)

theorem nuGmacInit_queue (frames : FrameArea) (mem : Mem) :
    RxQueue (nuGmacInit frames mem) [] [] := by
  have h : (nuGmacInit frames mem).Filling receiveDescSize :=
    setRxFrames_filling (Nat.zero_add _)
      ⟨rfl, fun i hi => absurd hi (Nat.not_lt_zero i), fun _ _ => rfl, rfl, rfl, rfl, rfl⟩
  obtain ⟨busy, dma, arrived, passed⟩ := h.fresh
  refine ⟨Nat.zero_le _, ?_, ?_, ?_, ?_, ?_, ?_, ?_, arrived, passed, ?_⟩
  · rw [busy]
    exact receiveDescSize_pos
  · rw [busy, h.next, Nat.mod_self]
  · rw [busy, dma]
    rfl
  · intro i hi
    rw [h.filled i hi]
  · intro i hi
    rw [h.filled i hi]
  · intro k frame get
    cases get
  · intro k _ hk
    rw [h.filled _ (RxQueue.round k)]
  · intro frame mem
    cases mem

/-- The frames waiting: the last to arrive, one for each unread descriptor. -/
def waiting (s : GmacRx) : List RxFrame := s.arrived.drop (s.arrived.length - s.unread)

theorem waiting_eq {s : GmacRx} {done queue : List RxFrame} (h : RxQueue s done queue) :
    s.waiting = queue := by
  unfold waiting
  rw [h.unread_eq, h.arrived]
  simp

def StepGood (s : GmacRx) : RxEvent → Prop
  | .receive _ => True
  | .push turns => RxTurnsGood turns s.waiting

/-- The ring is sound throughout a run exactly where every frame `eth_rx_push` comes to is good
and gets a pbuf. -/
theorem rx_ring_sound_iff (frames : FrameArea) (mem : Mem) (events : List RxEvent) :
    (∀ pre, pre <+: events → (pre.foldl step (nuGmacInit frames mem)).RingSound) ↔
      Runs.StepsMeet step StepGood (nuGmacInit frames mem) events := by
  refine Runs.prefixes_hold_iff (fun s => ∃ done queue, RxQueue s done queue) RingSound
    ?_ ?_ ?_ ⟨[], [], nuGmacInit_queue frames mem⟩ events
  · rintro s ⟨done, queue, h⟩
    exact h.sound
  · rintro s e ⟨done, queue, h⟩
    cases e with
    | receive frame => exact iff_of_true (h.receive frame).sound trivial
    | push turns =>
      unfold StepGood
      rw [waiting_eq h]
      exact (ethRxPush_sound_iff h).1
  · rintro s e ⟨done, queue, h⟩ good
    cases e with
    | receive frame => exact ⟨done, _, h.receive frame⟩
    | push turns =>
      unfold StepGood at good
      rw [waiting_eq h] at good
      exact (ethRxPush_sound_iff h).2 good

def crcErrorFrame : RxFrame where
  status := 0x00408302
  data := List.replicate 64 0
  given := by decide
  fits := by decide
  whole := by decide

def blankRing : GmacRx := nuGmacInit ⟨0x80000000, FrameArea.upperSpace_fits⟩ fun _ => 0

theorem crcErrorFrame_loses_descriptor :
    ¬([.receive crcErrorFrame, .push [⟨[], true, true⟩]].foldl step blankRing).RingSound := by
  have h : RxQueue (blankRing.receive crcErrorFrame) [] [crcErrorFrame] :=
    (nuGmacInit_queue _ _).receive crcErrorFrame
  have bad : ¬crcErrorFrame.Good := by decide
  exact mt (ethRxPush_sound_iff h).1.mp fun good => bad good.1

end GmacRx

end NuMakerMA35
