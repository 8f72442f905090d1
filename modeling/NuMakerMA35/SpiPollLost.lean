import NuMakerMA35.SpiPollSafe

namespace NuMakerMA35

open Words (Mem)

namespace SpiXfer

variable {x : SpiXfer} {unread : Bool} {mem : Mem} {s : SpiPoll}

/-- A turn of the transfer loop that finds room in the transmit FIFO and no word received. -/
def push (x : SpiXfer) : List SpiEvent :=
  if x.WriteOnly then [.thread, .thread] else [.thread, .thread, .thread]

theorem push_eq (full : s.pc = .full) (room : s.tx.length < x.depth) (none : s.rx = []) :
    x.push.foldl x.step s = { x.written s with pc := (x.written s).loopHead } := by
  obtain ⟨mem, send, recv, left, pc, tx, shift, rx, out, inn, dropped⟩ := s
  obtain rfl : pc = .full := full
  obtain rfl : rx = [] := none
  unfold push
  split_ifs with writeOnly
  · simp [step, threadStep, written, writeOnly, room.ne, SpiPoll.loopHead]
  · simp [step, threadStep, written, writeOnly, room.ne, SpiPoll.loopHead, SpiPoll.returnTo]

/-- A turn of the loop in which the word is shifted at once, and the one that came in is read. -/
def quickTurn (val : U32) : List SpiEvent := [.thread, .thread, .load, .finish val, .thread, .thread]

def exchanged (x : SpiXfer) (val : U32) (s : SpiPoll) : SpiPoll :=
  { s with
    mem := x.store s.mem s.recv val
    send := if x.ReadOnly then s.send else s.send + x.bytes
    recv := s.recv + x.bytes
    left := s.left - x.bytes
    out := s.out ++ [if x.ReadOnly then 0 else x.wordAt s.mem s.send]
    inn := s.inn ++ [val] }

structure Settled (s : SpiPoll) : Prop where
  tx : s.tx = []
  shift : s.shift = none
  rx : s.rx = []

theorem quickTurn_eq (reads : ¬x.WriteOnly) (full : s.pc = .full) (settled : Settled s) (val : U32) :
    (quickTurn val).foldl x.step s =
      { x.exchanged val s with pc := (x.exchanged val s).loopHead } := by
  obtain ⟨mem, send, recv, left, pc, tx, shift, rx, out, inn, dropped⟩ := s
  obtain ⟨rfl, rfl, rfl⟩ := settled
  obtain rfl : pc = .full := full
  have positive := x.depth_pos
  simp [quickTurn, step, threadStep, loadStep, finishStep, exchanged, reads, positive,
    positive.ne, SpiPoll.returnTo, SpiPoll.loopHead]

theorem run_append (mem : Mem) (es es' : List SpiEvent) :
    x.run mem (es ++ es') = es'.foldl x.step (x.run mem es) := List.foldl_append

theorem start_full (some : 0 < x.words) : (x.start mem).pc = .full :=
  if_pos (Nat.mul_pos x.bytes_pos some)

theorem head_full (left : 0 < s.left) : s.loopHead = .full := if_pos left

section Nulls

theorem null_stored (some : 0 < x.words) (send : x.sendAddr = 0) (recv : x.recvAddr = 0) :
    ¬x.Transfers unread mem := by
  intro transfers
  have reads : ¬x.WriteOnly := fun writeOnly => writeOnly.1 send
  have positive := x.bytes_pos
  let val : U32 := (mem 0 + 1).setWidth 32
  have stored := (transfers.safe (quickTurn val)).frame 0 (.inl recv)
  rw [run, quickTurn_eq reads (start_full some) ⟨rfl, rfl, rfl⟩] at stored
  have byte : x.store mem x.recvAddr val 0 = mem 0 + 1 := by
    rw [store_eq, recv, Words.blit, if_pos ⟨le_rfl, by simp [positive]⟩]
    simp [leBytes, positive, val]
  have same : mem 0 + 1 = mem 0 := byte.symm.trans stored
  revert same
  generalize mem 0 = v
  revert v
  decide

end Nulls

section Overrun

/-- While the thread is away, the controller shifts one word after the other. -/
def shiftAll (m : Nat) : List SpiEvent := (List.replicate m [.load, .finish 0]).flatten

structure Unread (x : SpiXfer) (s : SpiPoll) : Prop where
  count : s.rx.length + s.dropped = s.inn.length
  few : s.rx.length ≤ x.depth

theorem Unread.finish (here : x.Unread s) {word : U32} (shift : s.shift = some word) (val : U32) :
    x.Unread (x.finishStep val s) ∧ (x.finishStep val s).shift = none ∧
      (x.finishStep val s).tx = s.tx ∧ (x.finishStep val s).inn.length = s.inn.length + 1 := by
  obtain ⟨count, few⟩ := here
  rcases finishStep_cases val s with ⟨word', -, eq⟩ | ⟨none, -⟩
  · rw [eq]
    refine ⟨⟨?_, ?_⟩, rfl, rfl, List.length_append⟩
    · dsimp only
      rw [List.length_append, List.length_singleton]
      split_ifs
      · rw [List.length_append, List.length_singleton]
        omega
      · omega
    · dsimp only
      split_ifs
      · rw [List.length_append, List.length_singleton]
        omega
      · exact few
  · rw [shift] at none
    cases none

theorem Unread.shiftAll (m : Nat) : ∀ {s : SpiPoll}, x.Unread s → s.shift = none → s.tx.length = m →
    x.Unread ((shiftAll m).foldl x.step s) ∧
      ((shiftAll m).foldl x.step s).inn.length = s.inn.length + m := by
  induction m with
  | zero => exact fun here _ _ => ⟨here, rfl⟩
  | succ m ih =>
    intro s here free length
    have events : SpiXfer.shiftAll (m + 1) = [.load, .finish 0] ++ SpiXfer.shiftAll m := by
      rw [SpiXfer.shiftAll, List.replicate_succ, List.flatten_cons]
      rfl
    rcases loadStep_cases s with ⟨word, tx, -, first, eq⟩ | ⟨none, -⟩
    · have loaded : x.Unread (loadStep s) := eq ▸ ⟨here.count, here.few⟩
      have shift : (loadStep s).shift = some word := by rw [eq]
      obtain ⟨next, free', rest, one⟩ := loaded.finish shift 0
      have fewer : (x.finishStep 0 (loadStep s)).tx.length = m := by
        rw [rest, eq]
        rw [first, List.length_cons] at length
        exact Nat.succ.inj length
      obtain ⟨last, count⟩ := ih next free' fewer
      rw [events, List.foldl_append]
      refine ⟨last, ?_⟩
      have inn : (loadStep s).inn = s.inn := by rw [eq]
      show ((SpiXfer.shiftAll m).foldl x.step (x.finishStep 0 (loadStep s))).inn.length = _
      rw [count, one, inn]
      omega
    · rcases none with busy | empty
      · exact absurd free busy
      · rw [empty] at length
        cases length

/-- The thread goes on writing while the first word is shifted. -/
structure Filling (x : SpiXfer) (i : Nat) (s : SpiPoll) : Prop where
  pc : s.pc = s.loopHead
  left : s.left + x.bytes * (i + 1) = x.length
  tx : s.tx.length = i
  shift : s.shift ≠ none
  rx : s.rx = []
  inn : s.inn = []
  dropped : s.dropped = 0

theorem Filling.push {i : Nat} (filling : x.Filling i s) (room : i < x.depth)
    (more : i + 1 < x.words) : x.Filling (i + 1) (x.push.foldl x.step s) := by
  have bytes : x.bytes ≤ s.left := by
    have behind : x.bytes * (i + 1) + x.bytes ≤ x.length := by
      rw [← Nat.mul_succ]
      exact Nat.mul_le_mul_left _ more
    have left := filling.left
    omega
  have positive := x.bytes_pos
  have full : s.pc = .full := filling.pc.trans (head_full (by omega))
  rw [push_eq full (filling.tx ▸ room) filling.rx]
  refine ⟨rfl, ?_, ?_, filling.shift, filling.rx, filling.inn, filling.dropped⟩
  · have left := filling.left
    show s.left - x.bytes + x.bytes * (i + 1 + 1) = x.length
    rw [Nat.mul_succ x.bytes (i + 1)]
    omega
  · show (s.tx ++ [_]).length = i + 1
    rw [List.length_append, filling.tx]
    rfl

theorem filling_first (some : 0 < x.words) :
    x.Filling 0 (x.run mem (x.push ++ [.load])) := by
  rw [run_append, run, push_eq (start_full some) x.depth_pos rfl]
  have positive := x.bytes_pos
  have whole : x.bytes ≤ x.length := Nat.le_mul_of_pos_right _ some
  refine ⟨rfl, ?_, rfl, nofun, rfl, rfl, rfl⟩
  show x.length - x.bytes + x.bytes * 1 = x.length
  omega

theorem filling_all (mem : Mem) {i : Nat} (room : i ≤ x.depth) (more : i < x.words) :
    x.Filling i (x.run mem (x.push ++ [.load] ++ (List.replicate i x.push).flatten)) := by
  induction i with
  | zero =>
    rw [List.replicate_zero, List.flatten_nil, List.append_nil]
    exact filling_first more
  | succ i ih =>
    rw [List.replicate_succ', List.flatten_append, List.flatten_singleton, ← List.append_assoc,
      run_append]
    exact (ih (by omega) (by omega)).push (by omega) more

theorem word_dropped (counted : unread = true ∨ x.recvAddr ≠ 0) (many : x.depth < x.words) :
    ¬x.Transfers unread mem := by
  intro transfers
  have filling := filling_all mem le_rfl many
  obtain ⟨word, shift⟩ := Option.ne_none_iff_exists'.mp filling.shift
  have start : x.Unread (x.run mem (x.push ++ [.load] ++ (List.replicate x.depth x.push).flatten)) := by
    refine ⟨?_, ?_⟩
    · rw [filling.rx, filling.dropped, filling.inn]
      rfl
    · rw [filling.rx]
      exact Nat.zero_le _
  obtain ⟨first, free, tx, one⟩ := start.finish shift 0
  obtain ⟨last, all⟩ := first.shiftAll x.depth free ((congrArg List.length tx).trans filling.tx)
  have kept := (transfers.safe (x.push ++ [.load] ++ (List.replicate x.depth x.push).flatten ++
    (.finish 0 :: shiftAll x.depth))).kept counted
  rw [run_append] at kept
  have lost : (x.run mem (x.push ++ [.load] ++ (List.replicate x.depth x.push).flatten)).inn.length
      = 0 := by rw [filling.inn, List.length_nil]
  have count := last.count
  have few := last.few
  rw [all, one, lost] at count
  change ((shiftAll x.depth).foldl x.step (x.finishStep 0 _)).dropped = 0 at kept
  omega

end Overrun

section Overlap

structure Quick (x : SpiXfer) (target : Nat) (byte : BitVec 8) (n : Nat) (s : SpiPoll) : Prop where
  pc : s.pc = s.loopHead
  left : s.left + x.bytes * n = x.length
  settled : Settled s
  send : s.send = x.sendAddr + x.bytes * n
  recv : s.recv = x.recvAddr + x.bytes * n
  out : s.out.length = n
  byte : s.mem target = byte

variable {target : Nat} {byte : BitVec 8} {n : Nat}

theorem Quick.full (quick : x.Quick target byte n s) (more : n < x.words) :
    s.pc = .full ∧ x.bytes ≤ s.left := by
  have bytes : x.bytes * n + x.bytes ≤ x.length := by
    rw [← Nat.mul_succ]
    exact Nat.mul_le_mul_left _ more
  have left := quick.left
  have positive := x.bytes_pos
  exact ⟨quick.pc.trans (head_full (by omega)), by omega⟩

theorem Quick.turn (send : x.sendAddr ≠ 0) (recv : x.recvAddr ≠ 0)
    (quick : x.Quick target byte n s) (more : n < x.words)
    (before : target < x.recvAddr + x.bytes * n) :
    x.Quick target byte (n + 1) ((quickTurn 0).foldl x.step s) := by
  have reads : ¬x.WriteOnly := fun writeOnly => recv writeOnly.2
  have plain : ¬x.ReadOnly := fun readOnly => send readOnly.1
  obtain ⟨full, bytes⟩ := quick.full more
  rw [quickTurn_eq reads full quick.settled]
  refine ⟨rfl, ?_, ⟨quick.settled.tx, quick.settled.shift, quick.settled.rx⟩, ?_, ?_, ?_, ?_⟩
  · have left := quick.left
    show s.left - x.bytes + x.bytes * (n + 1) = x.length
    rw [Nat.mul_succ]
    omega
  · show (if x.ReadOnly then s.send else s.send + x.bytes) = _
    rw [if_neg plain, quick.send, Nat.mul_succ, Nat.add_assoc]
  · show s.recv + x.bytes = _
    rw [quick.recv, Nat.mul_succ, Nat.add_assoc]
  · show (s.out ++ [_]).length = n + 1
    rw [List.length_append, quick.out]
    rfl
  · show x.store s.mem s.recv 0 target = byte
    rw [store_eq, quick.recv, Words.blit_outside (.inl before)]
    exact quick.byte

theorem quick_first (send : x.sendAddr ≠ 0) (recv : x.recvAddr ≠ 0) (some : 0 < x.words) {i : Nat}
    (inside : i < x.bytes) (byte : BitVec 8) :
    x.Quick (x.recvAddr + i) byte 1
      (x.run mem (quickTurn (byte.setWidth 32 <<< (8 * i)))) := by
  have reads : ¬x.WriteOnly := fun writeOnly => recv writeOnly.2
  have plain : ¬x.ReadOnly := fun readOnly => send readOnly.1
  have whole : x.bytes ≤ x.length := Nat.le_mul_of_pos_right _ some
  rw [run, quickTurn_eq reads (start_full some) ⟨rfl, rfl, rfl⟩]
  refine ⟨rfl, ?_, ⟨rfl, rfl, rfl⟩, ?_, ?_, rfl, ?_⟩
  · show x.length - x.bytes + x.bytes * 1 = x.length
    omega
  · show (if x.ReadOnly then x.sendAddr else x.sendAddr + x.bytes) = _
    rw [if_neg plain, Nat.mul_one]
  · show x.recvAddr + x.bytes = _
    rw [Nat.mul_one]
  · show x.store mem x.recvAddr _ (x.recvAddr + i) = byte
    have few := x.bytes_le
    rw [store_eq, Words.blit, if_pos ⟨Nat.le_add_right _ _, by simpa using inside⟩,
      Nat.add_sub_cancel_left]
    apply BitVec.eq_of_getLsbD_eq
    intro j bit
    simp [leBytes, inside, bit, show 8 * i + j < 32 by omega]

theorem quick_all (send : x.sendAddr ≠ 0) (recv : x.recvAddr ≠ 0) {i : Nat} (inside : i < x.bytes)
    (byte : BitVec 8) (mem : Mem) {n : Nat} (more : n < x.words) :
    x.Quick (x.recvAddr + i) byte (n + 1) (x.run mem
      (quickTurn (byte.setWidth 32 <<< (8 * i)) ++ (List.replicate n (quickTurn 0)).flatten)) := by
  induction n with
  | zero =>
    rw [List.replicate_zero, List.flatten_nil, List.append_nil]
    exact quick_first send recv more inside byte
  | succ n ih =>
    have before : x.bytes ≤ x.bytes * (n + 1) := Nat.le_mul_of_pos_right _ (Nat.succ_pos n)
    rw [List.replicate_succ', List.flatten_append, List.flatten_singleton, ← List.append_assoc,
      run_append]
    exact (ih (by omega)).turn send recv more (by omega)

theorem Quick.sent (send : x.sendAddr ≠ 0) (recv : x.recvAddr ≠ 0)
    (quick : x.Quick target byte n s) (more : n < x.words) (val : U32) :
    ((quickTurn val).foldl x.step s).out = s.out ++ [x.wordAt s.mem (x.sendAddr + x.bytes * n)] := by
  have reads : ¬x.WriteOnly := fun writeOnly => recv writeOnly.2
  have plain : ¬x.ReadOnly := fun readOnly => send readOnly.1
  rw [quickTurn_eq reads (quick.full more).1 quick.settled]
  show s.out ++ [if x.ReadOnly then 0 else x.wordAt s.mem s.send] = _
  rw [if_neg plain, quick.send]

theorem byte_overwritten (send : x.sendAddr ≠ 0) (recv : x.recvAddr ≠ 0) (many : 1 < x.words)
    (behind : x.sendAddr < x.recvAddr) (overlap : x.recvAddr < x.sendAddr + x.length) :
    ¬x.Transfers unread mem := by
  intro transfers
  have positive := x.bytes_pos
  have two : x.bytes * 2 ≤ x.length := Nat.mul_le_mul_left _ many
  -- the first byte of the buffer's second word, or of what is received, whichever is later
  obtain ⟨e, late, inside, low, high⟩ : ∃ e, x.bytes ≤ e ∧ e < x.length ∧
      x.recvAddr ≤ x.sendAddr + e ∧ x.sendAddr + e < x.recvAddr + x.bytes :=
    ⟨max (x.recvAddr - x.sendAddr) x.bytes, by omega, by omega, by omega, by omega⟩
  obtain ⟨i, target⟩ := Nat.exists_eq_add_of_le low
  -- the word that the byte belongs to
  obtain ⟨n, place⟩ : ∃ n, e / x.bytes = n + 1 :=
    ⟨e / x.bytes - 1, by have := Nat.div_pos late positive; omega⟩
  have division := Nat.div_add_mod e x.bytes
  have rest := Nat.mod_lt e positive
  rw [place] at division
  have more : n + 1 < x.words := by
    unfold length at inside
    exact Nat.lt_of_mul_lt_mul_left (a := x.bytes) (by omega)
  have quick := quick_all send recv (show i < x.bytes by omega) (mem (x.sendAddr + e) + 1) mem
    (show n < x.words by omega)
  have sent := (transfers.safe (quickTurn ((mem (x.sendAddr + e) + 1).setWidth 32 <<< (8 * i)) ++
    (List.replicate n (quickTurn 0)).flatten ++ quickTurn 0)).sent
  rw [run_append, quick.sent send recv more, List.flatMap_append, List.flatMap_singleton,
    wordAt_bytes, sendBytes, if_neg send] at sent
  generalize x.run mem _ = t at quick sent
  have front : (t.out.flatMap (leBytes x.bytes)).length = x.bytes * (n + 1) := by
    rw [flatMap_length, quick.out]
  have element {mem : Mem} {a m j : Nat} (below : j < m) :
      (Words.slice mem a m)[j]? = some (mem (a + j)) := by simp [Words.slice, below]
  obtain ⟨tail, same⟩ := sent
  have byte := congrArg (fun bytes => bytes[e]?) same
  rw [element inside, List.append_assoc, List.getElem?_append_right (by omega), front,
    List.getElem?_append_left (by rw [Words.slice_length]; omega), element (by omega),
    show x.sendAddr + x.bytes * (n + 1) + (e - x.bytes * (n + 1)) = x.recvAddr + i by omega,
    quick.byte, Option.some.injEq] at byte
  revert byte
  generalize mem (x.sendAddr + e) = v
  revert v
  decide

end Overlap

end SpiXfer

open SpiXfer in
/-- A polled transfer is right in every interleaving exactly if there is nothing to transfer, or a
buffer, no more words than the receive FIFO holds, and no receive buffer that begins inside the send
buffer behind its start. -/
theorem spi_poll_iff (x : SpiXfer) (unread : Bool) (mem : Mem) :
    x.Transfers unread mem ↔ x.Fits unread := by
  constructor
  · intro transfers
    by_contra unfit
    have some : 0 < x.words := Nat.pos_of_ne_zero fun none => unfit (.inl none)
    by_cases buffer : x.sendAddr ≠ 0 ∨ x.recvAddr ≠ 0
    · by_cases room : unread = true ∨ x.recvAddr ≠ 0 → x.words ≤ x.depth
      · refine unfit (.inr ⟨buffer, room, fun send recv => ?_⟩)
        by_contra overlap
        exact byte_overwritten send recv (by omega) (by omega) (by omega) transfers
      · obtain ⟨counted, many⟩ := Classical.not_imp.mp room
        exact word_dropped counted (by omega) transfers
    · obtain ⟨send, recv⟩ := not_or.mp buffer
      exact null_stored some (not_not.mp send) (not_not.mp recv) transfers
  · intro fits
    exact fits.transfers mem

/-- Five words of four bytes with FIFOs of four places: all are written while the first is shifted, and
the last one to come in before the thread goes on is lost. -/
theorem fifthWord_dropped :
    ¬(SpiXfer.mk 4 5 0x100 0x200 4 (by decide) (by decide) (by decide)).Transfers false
      fun _ => 0 := by
  intro transfers
  have kept := (transfers.safe (List.replicate 3 .thread ++ [.load] ++ List.replicate 12 .thread ++
    [.finish 0] ++ SpiXfer.shiftAll 4)).kept (by decide)
  exact absurd kept (by decide)

end NuMakerMA35
