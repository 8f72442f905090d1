import NuMakerMA35.SpiPollReturns

namespace NuMakerMA35

open Words (Mem)

section Bytes

variable {n : Nat} {mem : Mem} {pos : Nat} {val : U32}

@[simp] theorem leBytes_length : (leBytes n val).length = n := by simp [leBytes]

theorem leBytes_zero : leBytes n 0 = List.replicate n 0 := by
  apply List.ext_getElem
  · simp
  · intro i _ _
    simp [leBytes]

theorem nuGetLe_succ : nuGetLe (n + 1) mem pos =
    nuGetLe n mem pos + (mem (pos + n)).setWidth 32 <<< (8 * n) := by
  unfold nuGetLe
  rw [List.range_succ, List.foldl_append]
  rfl

theorem nuGetLe_toNat (few : n + 1 ≤ 4) : (nuGetLe n mem pos).toNat < 2 ^ (8 * n) ∧
    (nuGetLe (n + 1) mem pos).toNat =
      (nuGetLe n mem pos).toNat + (mem (pos + n)).toNat * 2 ^ (8 * n) := by
  have add (n : Nat) (few : n + 1 ≤ 4) (small : (nuGetLe n mem pos).toNat < 2 ^ (8 * n)) :
      (nuGetLe (n + 1) mem pos).toNat =
        (nuGetLe n mem pos).toNat + (mem (pos + n)).toNat * 2 ^ (8 * n) := by
    have byte := (mem (pos + n)).isLt
    have power : 2 ^ (8 * n) * 2 ^ 8 ≤ 2 ^ 32 := by
      rw [← Nat.pow_add]
      exact Nat.pow_le_pow_right (by omega) (by omega)
    have product : (mem (pos + n)).toNat * 2 ^ (8 * n) ≤ (2 ^ 8 - 1) * 2 ^ (8 * n) :=
      Nat.mul_le_mul_right _ (by omega)
    rw [nuGetLe_succ, BitVec.toNat_add, BitVec.toNat_shiftLeft, BitVec.toNat_setWidth,
      Nat.shiftLeft_eq, Nat.mod_eq_of_lt (by omega : (mem (pos + n)).toNat < 2 ^ 32),
      Nat.mod_eq_of_lt (by omega : (mem (pos + n)).toNat * 2 ^ (8 * n) < 2 ^ 32)]
    exact Nat.mod_eq_of_lt (by omega)
  have small : ∀ n, n + 1 ≤ 4 → (nuGetLe n mem pos).toNat < 2 ^ (8 * n) := by
    intro n few
    induction n with
    | zero => simp [nuGetLe]
    | succ n ih =>
      have byte := (mem (pos + n)).isLt
      have product : (mem (pos + n)).toNat * 2 ^ (8 * n) ≤ (2 ^ 8 - 1) * 2 ^ (8 * n) :=
        Nat.mul_le_mul_right _ (by omega)
      rw [add n (by omega) (ih (by omega)), Nat.mul_succ, Nat.pow_add]
      have := ih (by omega)
      omega
  exact ⟨small n few, add n few (small n few)⟩

theorem leBytes_nuGetLe (few : n ≤ 4) : leBytes n (nuGetLe n mem pos) = Words.slice mem pos n := by
  induction n with
  | zero => rfl
  | succ n ih =>
    obtain ⟨small, sum⟩ := @nuGetLe_toNat n mem pos few
    have front := ih (by omega)
    unfold leBytes Words.slice at front ⊢
    rw [List.range_succ, List.map_append, List.map_append, ← front]
    congr 1
    · apply List.map_congr_left
      intro i inside
      have below := List.mem_range.mp inside
      apply BitVec.eq_of_toNat_eq
      have power : (2 : Nat) ^ (8 * n) = 2 ^ (8 * i) * (2 ^ 8 * 2 ^ (8 * (n - i - 1))) := by
        rw [← Nat.pow_add, ← Nat.pow_add]
        congr 1
        omega
      rw [BitVec.toNat_setWidth, BitVec.toNat_setWidth, BitVec.toNat_ushiftRight,
        BitVec.toNat_ushiftRight, Nat.shiftRight_eq_div_pow, Nat.shiftRight_eq_div_pow, sum, power,
        Nat.mul_left_comm, Nat.add_mul_div_left _ _ (Nat.two_pow_pos _), Nat.mul_left_comm,
        Nat.add_mul_mod_self_left]
    · simp only [List.map_cons, List.map_nil, List.cons.injEq, and_true]
      apply BitVec.eq_of_toNat_eq
      rw [BitVec.toNat_setWidth, BitVec.toNat_ushiftRight, Nat.shiftRight_eq_div_pow, sum,
        Nat.add_mul_div_right _ _ (Nat.two_pow_pos _), Nat.div_eq_of_lt small, Nat.zero_add]
      exact Nat.mod_eq_of_lt (mem (pos + n)).isLt

theorem nuSetLe_eq : nuSetLe n mem pos val = Words.blit mem pos (leBytes n val) := by
  induction n with
  | zero =>
    funext a
    rw [Words.blit_outside (by simp; omega)]
    rfl
  | succ n ih =>
    have bytes : leBytes (n + 1) val = leBytes n val ++ [(val >>> (8 * n)).setWidth 8] := by
      unfold leBytes
      rw [List.range_succ, List.map_append]
      rfl
    have last : nuSetLe (n + 1) mem pos val =
        Function.update (nuSetLe n mem pos val) (pos + n) ((val >>> (8 * n)).setWidth 8) := by
      unfold nuSetLe
      rw [List.range_succ, List.foldl_append]
      rfl
    rw [bytes, ← Words.blit_append, leBytes_length, last, ih]
    funext a
    by_cases here : a = pos + n
    · subst here
      simp [Words.blit]
    · rw [Function.update_of_ne here]
      have beyond : a < pos + n ∨ pos + n + 1 ≤ a := by omega
      exact (Words.blit_outside (by simpa using beyond)).symm

variable {x : SpiXfer}

theorem SpiXfer.bytes_cases (x : SpiXfer) :
    x.bytes = 1 ∨ x.bytes = 2 ∨ x.bytes = 3 ∨ x.bytes = 4 := by
  have low := x.bytes_pos
  have high := x.bytes_le
  omega

theorem SpiXfer.wordAt_eq : x.wordAt mem pos = nuGetLe x.bytes mem pos := by
  unfold SpiXfer.wordAt
  obtain h | h | h | h := x.bytes_cases
  · rw [h]
    simp [nuGetLe]
  · rw [h]
    rfl
  · rw [h]
    rfl
  · rw [h]
    rfl

theorem SpiXfer.store_eq : x.store mem pos val = Words.blit mem pos (leBytes x.bytes val) := by
  rw [← nuSetLe_eq]
  unfold SpiXfer.store
  obtain h | h | h | h := x.bytes_cases
  · rw [h]
    simp [nuSetLe]
  · rw [h]
    rfl
  · rw [h]
    rfl
  · rw [h]
    rfl

theorem SpiXfer.wordAt_bytes : leBytes x.bytes (x.wordAt mem pos) = Words.slice mem pos x.bytes := by
  rw [x.wordAt_eq, leBytes_nuGetLe x.bytes_le]

end Bytes

namespace SpiXfer

variable {x : SpiXfer} {unread : Bool} {mem : Mem} {s : SpiPoll} {k r : Nat}

def sendWord (x : SpiXfer) (mem : Mem) (k : Nat) : U32 :=
  if x.ReadOnly then 0 else x.wordAt mem (x.sendAddr + x.bytes * k)

/-- The words `k` so far were written, and `r` of those that came in were stored. -/
structure Data (x : SpiXfer) (unread : Bool) (mem : Mem) (k r : Nat) (s : SpiPoll) : Prop where
  left : x.bytes * k + s.left = x.length
  sent : s.out ++ s.shift.toList ++ s.tx = (List.range k).map (x.sendWord mem)
  send : s.send = if x.ReadOnly then x.sendAddr else x.sendAddr + x.bytes * k
  inn : s.inn.length = s.out.length
  fetched : r ≤ s.inn.length
  untouched : x.recvAddr = 0 → r = 0
  recv : s.recv = x.recvAddr + x.bytes * r
  stored : s.mem = Words.blit mem x.recvAddr ((s.inn.take r).flatMap (leBytes x.bytes))
  rx : x.recvAddr ≠ 0 → s.rx = s.inn.drop r
  few : s.rx.length ≤ s.inn.length
  kept : unread = true ∨ x.recvAddr ≠ 0 → s.dropped = 0

/-- Words are only read for a receive buffer, and only without one the FIFO is cleared. -/
def Side (x : SpiXfer) (pc : SpiPc) : Prop :=
  match pc with
  | .empty _ | .fetch _ | .busy | .more | .last => x.recvAddr ≠ 0
  | .idle | .drain | .clear => x.recvAddr = 0
  | .full | .write | .done => True

theorem flatMap_length (vals : List U32) :
    (vals.flatMap (leBytes x.bytes)).length = x.bytes * vals.length := by
  induction vals with
  | nil => rfl
  | cons v vals ih =>
    rw [List.flatMap_cons, List.length_append, leBytes_length, ih, List.length_cons, Nat.mul_succ,
      Nat.add_comm]

theorem nuGetLe_congr {n : Nat} {mem' : Mem} {pos : Nat}
    (same : ∀ a, pos ≤ a → a < pos + n → mem' a = mem a) : nuGetLe n mem' pos = nuGetLe n mem pos := by
  induction n with
  | zero => rfl
  | succ n ih =>
    rw [nuGetLe_succ, nuGetLe_succ, ih (fun a low high => same a low (by omega)),
      same (pos + n) (by omega) (by omega)]

theorem wordAt_congr {mem' : Mem} {pos : Nat}
    (same : ∀ a, pos ≤ a → a < pos + x.bytes → mem' a = mem a) :
    x.wordAt mem' pos = x.wordAt mem pos := by
  rw [wordAt_eq, wordAt_eq, nuGetLe_congr same]

theorem Data.pushed (data : x.Data unread mem k r s) :
    s.out.length + s.shift.toList.length + s.tx.length = k := by
  have length := congrArg List.length data.sent
  rwa [List.length_append, List.length_append, List.length_map, List.length_range] at length

theorem Data.inside (data : x.Data unread mem k r s) : k ≤ x.words := by
  have left := data.left
  unfold length at left
  exact Nat.le_of_mul_le_mul_left (by omega) x.bytes_pos

theorem Data.taken (data : x.Data unread mem k r s) (more : k < x.words)
    (apart : x.sendAddr ≠ 0 → x.recvAddr ≠ 0 →
      x.words = 1 ∨ x.recvAddr ≤ x.sendAddr ∨ x.sendAddr + x.length ≤ x.recvAddr)
    (buffer : x.sendAddr ≠ 0 ∨ x.recvAddr ≠ 0) :
    (if x.ReadOnly then 0 else x.wordAt s.mem s.send) = x.sendWord mem k := by
  unfold sendWord
  split_ifs with readOnly
  · rfl
  · have send : x.sendAddr ≠ 0 := by
      intro none
      exact readOnly ⟨none, buffer.resolve_left (not_not.mpr none)⟩
    rw [data.send, if_neg readOnly, data.stored]
    apply wordAt_congr
    intro a low high
    have fetched := data.fetched
    have pushed := data.pushed
    have inn := data.inn
    have bytes : ((s.inn.take r).flatMap (leBytes x.bytes)).length = x.bytes * r := by
      rw [flatMap_length, List.length_take, Nat.min_eq_left fetched]
    have before : x.bytes * r ≤ x.bytes * k := Nat.mul_le_mul_left _ (by omega)
    have behind : x.bytes * k + x.bytes ≤ x.length := by
      rw [← Nat.mul_succ]
      exact Nat.mul_le_mul_left _ more
    apply Words.blit_outside
    rw [bytes]
    by_cases recv : x.recvAddr = 0
    · have none := data.untouched recv
      rw [none]
      omega
    · rcases apart send recv with one | below | above
      · have none : r = 0 := by omega
        rw [none]
        omega
      · omega
      · omega

theorem Data.write (data : x.Data unread mem k r s) (bytes : x.bytes ≤ s.left)
    (apart : x.sendAddr ≠ 0 → x.recvAddr ≠ 0 →
      x.words = 1 ∨ x.recvAddr ≤ x.sendAddr ∨ x.sendAddr + x.length ≤ x.recvAddr)
    (buffer : x.sendAddr ≠ 0 ∨ x.recvAddr ≠ 0) :
    x.Data unread mem (k + 1) r (x.written s) := by
  have left := data.left
  have positive := x.bytes_pos
  have more : k < x.words := by
    unfold length at left
    exact Nat.lt_of_mul_lt_mul_left (a := x.bytes) (by omega)
  refine ⟨?_, ?_, ?_, data.inn, data.fetched, data.untouched, data.recv, data.stored, data.rx,
    data.few, data.kept⟩
  · show x.bytes * (k + 1) + (s.left - x.bytes) = x.length
    rw [Nat.mul_succ]
    omega
  · show s.out ++ s.shift.toList ++ (s.tx ++ [_]) = _
    rw [data.taken more apart buffer, List.range_succ, List.map_append, ← List.append_assoc, data.sent]
    rfl
  · show (if x.ReadOnly then s.send else s.send + x.bytes) = _
    rw [data.send]
    split_ifs
    · rfl
    · rw [Nat.mul_succ, Nat.add_assoc]

theorem Data.fetch (data : x.Data unread mem k r s) (recv : x.recvAddr ≠ 0) (some : s.rx ≠ []) :
    x.Data unread mem k (r + 1) (x.fetched s) := by
  have rx := data.rx recv
  have more : r < s.inn.length := by
    by_contra all
    exact some (rx.trans (List.drop_eq_nil_iff.mpr (by omega)))
  have split : s.inn.drop r = s.inn[r] :: s.inn.drop (r + 1) := (List.getElem_cons_drop more).symm
  refine ⟨data.left, data.sent, data.send, data.inn, more, fun none => absurd none recv, ?_, ?_, ?_,
    ?_, data.kept⟩
  · show s.recv + x.bytes = _
    rw [data.recv, Nat.mul_succ, Nat.add_assoc]
  · show x.store s.mem s.recv (s.rx.headD 0) =
      Words.blit mem x.recvAddr ((s.inn.take (r + 1)).flatMap (leBytes x.bytes))
    have before : ((s.inn.take r).flatMap (leBytes x.bytes)).length = x.bytes * r := by
      rw [flatMap_length, List.length_take, Nat.min_eq_left more.le]
    have place : x.recvAddr + x.bytes * r =
        x.recvAddr + ((s.inn.take r).flatMap (leBytes x.bytes)).length := by rw [before]
    rw [store_eq, rx, split, List.headD_cons, data.recv, data.stored, place, Words.blit_append,
      List.take_succ_eq_append_getElem more, List.flatMap_append, List.flatMap_singleton]
  · intro _
    show s.rx.tail = s.inn.drop (r + 1)
    rw [rx, split, List.tail_cons]
  · have few := data.few
    show s.rx.tail.length ≤ s.inn.length
    rw [List.length_tail]
    omega

theorem Data.clear (data : x.Data unread mem k r s) (none : x.recvAddr = 0) :
    x.Data unread mem k r { s with rx := [] } :=
  ⟨data.left, data.sent, data.send, data.inn, data.fetched, data.untouched, data.recv, data.stored,
    fun recv => absurd none recv, Nat.zero_le _, data.kept⟩

theorem Data.load (data : x.Data unread mem k r s) : x.Data unread mem k r (loadStep s) := by
  rcases loadStep_cases s with ⟨word, tx, free, first, eq⟩ | ⟨-, eq⟩
  · rw [eq]
    refine ⟨data.left, ?_, data.send, data.inn, data.fetched, data.untouched, data.recv, data.stored,
      data.rx, data.few, data.kept⟩
    have sent := data.sent
    rw [free, first] at sent
    simpa using sent
  · rw [eq]
    exact data

theorem Data.finish (data : x.Data unread mem k r s)
    (room : s.shift ≠ none → unread = true ∨ x.recvAddr ≠ 0 → x.words ≤ x.depth) (val : U32) :
    x.Data unread mem k r (x.finishStep val s) := by
  rcases finishStep_cases val s with ⟨word, shift, eq⟩ | ⟨-, eq⟩
  · have counted (here : unread = true ∨ x.recvAddr ≠ 0) : s.rx.length < x.depth := by
      have fits := room (by simp [shift]) here
      have pushed := data.pushed
      have inside := data.inside
      have inn := data.inn
      have few := data.few
      rw [shift, Option.toList_some, List.length_singleton] at pushed
      omega
    rw [eq]
    refine ⟨data.left, ?_, data.send, ?_, ?_, data.untouched, data.recv, ?_, ?_, ?_, ?_⟩
    · have sent := data.sent
      rw [shift] at sent
      simpa using sent
    · dsimp only
      rw [List.length_append, List.length_append, data.inn]
      rfl
    · dsimp only
      rw [List.length_append]
      exact Nat.le_add_right_of_le data.fetched
    · dsimp only
      rw [List.take_append_of_le_length data.fetched]
      exact data.stored
    · intro recv
      dsimp only
      rw [if_pos (counted (.inr recv)), List.drop_append_of_le_length data.fetched, data.rx recv]
    · have few := data.few
      dsimp only
      split_ifs
      · rw [List.length_append, List.length_append]
        omega
      · rw [List.length_append]
        omega
    · intro here
      dsimp only
      rw [if_pos (counted here)]
      exact data.kept here
  · rw [eq]
    exact data

theorem Data.move (data : x.Data unread mem k r s) (pc : SpiPc) :
    x.Data unread mem k r { s with pc := pc } :=
  ⟨data.left, data.sent, data.send, data.inn, data.fetched, data.untouched, data.recv, data.stored,
    data.rx, data.few, data.kept⟩

theorem Data.side_head (data : x.Data unread mem k r s) : x.Side s.loopHead := by
  have recv := data.recv
  unfold SpiPoll.loopHead
  split_ifs with more some
  · trivial
  · show x.recvAddr ≠ 0
    intro none
    rw [data.untouched none, none] at recv
    exact some recv
  · show x.recvAddr = 0
    omega

theorem Data.side_return (data : x.Data unread mem k r s) {caller : SpiReader}
    (recv : x.recvAddr ≠ 0) : x.Side (s.returnTo caller) := by
  cases caller with
  | loop => exact data.side_head
  | busy => exact recv
  | last => exact recv

structure Inv (x : SpiXfer) (unread : Bool) (mem : Mem) (s : SpiPoll) : Prop where
  ctl : x.Ctl s
  side : x.Side s.pc
  data : ∃ k r, x.Data unread mem k r s

theorem Fits.of_words (fits : x.Fits unread) (some : 0 < x.words) :
    (x.sendAddr ≠ 0 ∨ x.recvAddr ≠ 0) ∧
      (unread = true ∨ x.recvAddr ≠ 0 → x.words ≤ x.depth) ∧
      (x.sendAddr ≠ 0 → x.recvAddr ≠ 0 →
        x.words = 1 ∨ x.recvAddr ≤ x.sendAddr ∨ x.sendAddr + x.length ≤ x.recvAddr) :=
  fits.resolve_left (by omega)

theorem Data.side_test (data : x.Data unread mem k r s) (side : x.Side s.pc) {pc : SpiPc}
    (goes : Goes s s.pc pc) : x.Side pc := by
  generalize s.pc = old at side goes
  cases goes with
  | nothing caller _ => exact data.side_return side
  | room | read _ | drained _ => trivial
  | _ => exact side

theorem Inv.turn (fits : x.Fits unread) (inv : x.Inv unread mem s) {t : SpiPoll} (turn : x.Turn s t) :
    x.Inv unread mem t := by
  have ctl := inv.ctl.turn turn
  have side := inv.side
  obtain ⟨k, r, data⟩ := inv.data
  cases turn with
  | full _ _ => exact inv
  | busy _ _ => exact inv
  | done _ => exact inv
  | test goes => exact ⟨ctl, data.side_test side goes, k, r, data.move _⟩
  | write pc =>
    have bytes := inv.ctl.bytes_le (pc ▸ rfl)
    have positive := x.bytes_pos
    have words : 0 < x.words := by
      by_contra none
      have left := data.left
      rw [length, Nat.eq_zero_of_not_pos none, Nat.mul_zero] at left
      omega
    obtain ⟨buffer, -, apart⟩ := fits.of_words words
    have written := data.write bytes apart buffer
    refine ⟨ctl, ?_, k + 1, r, written.move _⟩
    show x.Side (if x.WriteOnly then (x.written s).loopHead else .empty .loop)
    split_ifs with writeOnly
    · exact written.side_head
    · exact fun none => writeOnly ⟨buffer.resolve_right (not_not.mpr none), none⟩
  | fetch caller pc =>
    rw [pc] at side
    have fetched := data.fetch side (inv.ctl.reading (pc ▸ rfl))
    exact ⟨ctl, fetched.side_return side, k, r + 1, fetched.move _⟩
  | clear pc =>
    rw [pc] at side
    exact ⟨ctl, side, k, r, (data.clear side).move _⟩

theorem loadStep_pc (s : SpiPoll) : (loadStep s).pc = s.pc := by
  rcases loadStep_cases s with ⟨_, _, -, -, eq⟩ | ⟨-, eq⟩ <;> rw [eq]

theorem finishStep_pc (val : U32) (s : SpiPoll) : (x.finishStep val s).pc = s.pc := by
  rcases finishStep_cases (x := x) val s with ⟨_, -, eq⟩ | ⟨-, eq⟩ <;> rw [eq]

theorem Inv.step (fits : x.Fits unread) (inv : x.Inv unread mem s) (e : SpiEvent) :
    x.Inv unread mem (x.step s e) := by
  cases e with
  | thread => exact inv.turn fits (threadStep_turn x s)
  | load =>
    obtain ⟨k, r, data⟩ := inv.data
    exact ⟨inv.ctl.load, (loadStep_pc s).symm ▸ inv.side, k, r, data.load⟩
  | finish val =>
    obtain ⟨k, r, data⟩ := inv.data
    refine ⟨inv.ctl.finish val, (finishStep_pc val s).symm ▸ inv.side, k, r, data.finish ?_ val⟩
    intro shifting
    obtain ⟨word, shift⟩ := Option.ne_none_iff_exists'.mp shifting
    have pushed := data.pushed
    have inside := data.inside
    rw [shift, Option.toList_some, List.length_singleton] at pushed
    exact (fits.of_words (by omega)).2.1

theorem start_inv (x : SpiXfer) (unread : Bool) (mem : Mem) : x.Inv unread mem (x.start mem) := by
  have data : x.Data unread mem 0 0 (x.start mem) := by
    refine ⟨Nat.zero_add _, rfl, ?_, rfl, le_rfl, fun _ => rfl, rfl, ?_, fun _ => rfl, le_rfl,
      fun _ => rfl⟩
    · show x.sendAddr = _
      split_ifs <;> simp
    · funext a
      exact (Words.blit_outside (by simp; omega)).symm
  exact ⟨start_ctl x mem, data.side_head, 0, 0, data⟩

theorem run_inv (fits : x.Fits unread) (mem : Mem) (es : List SpiEvent) :
    x.Inv unread mem (x.run mem es) :=
  List.foldlRecOn es x.step (start_inv x unread mem) fun _ inv e _ => inv.step fits e

theorem sendWords_bytes (buffer : x.words = 0 ∨ x.sendAddr ≠ 0 ∨ x.recvAddr ≠ 0) :
    ((List.range x.words).map (x.sendWord mem)).flatMap (leBytes x.bytes) = x.sendBytes mem := by
  unfold sendBytes length
  by_cases none : x.sendAddr = 0
  · rw [if_pos none]
    rcases buffer with words | send | recv
    · rw [words]
      rfl
    · exact absurd none send
    · have zeros (n : Nat) : ((List.range n).map (x.sendWord mem)).flatMap (leBytes x.bytes) =
          List.replicate (x.bytes * n) 0 := by
        induction n with
        | zero => rfl
        | succ n ih =>
          have word : x.sendWord mem n = 0 := if_pos ⟨none, recv⟩
          rw [List.range_succ, List.map_append, List.flatMap_append, ih, List.map_singleton,
            List.flatMap_singleton, word, leBytes_zero, List.replicate_append_replicate, Nat.mul_succ]
      exact zeros _
  · rw [if_neg none]
    have slices (n : Nat) : ((List.range n).map (x.sendWord mem)).flatMap (leBytes x.bytes) =
        Words.slice mem x.sendAddr (x.bytes * n) := by
      induction n with
      | zero => rfl
      | succ n ih =>
        have word : x.sendWord mem n = x.wordAt mem (x.sendAddr + x.bytes * n) :=
          if_neg fun readOnly => none readOnly.1
        rw [List.range_succ, List.map_append, List.flatMap_append, ih, List.map_singleton,
          List.flatMap_singleton, word, wordAt_bytes, Nat.mul_succ]
        unfold Words.slice
        rw [List.range_add, List.map_append, List.map_map]
        simp only [Function.comp_def, Nat.add_assoc]
    exact slices _

theorem Fits.buffer (fits : x.Fits unread) : x.words = 0 ∨ x.sendAddr ≠ 0 ∨ x.recvAddr ≠ 0 :=
  fits.imp_right And.left

theorem Inv.safe (fits : x.Fits unread) (inv : x.Inv unread mem s) : x.Safe unread mem s := by
  obtain ⟨k, r, data⟩ := inv.data
  refine ⟨data.kept, ?_, ?_⟩
  · have front : s.out <+: (List.range x.words).map (x.sendWord mem) := by
      have all : (List.range k).map (x.sendWord mem) <+: (List.range x.words).map (x.sendWord mem) := by
        rw [← Nat.min_eq_left data.inside, ← List.take_range, List.map_take]
        exact List.take_prefix _ _
      rw [← data.sent, List.append_assoc] at all
      exact (List.prefix_append _ _).trans all
    rw [← sendWords_bytes fits.buffer]
    obtain ⟨rest, eq⟩ := front
    rw [← eq, List.flatMap_append]
    exact List.prefix_append _ _
  · intro a outside
    have length : ((s.inn.take r).flatMap (leBytes x.bytes)).length = x.bytes * r := by
      rw [flatMap_length, List.length_take, Nat.min_eq_left data.fetched]
    have before : x.bytes * r ≤ x.length := by
      have pushed := data.pushed
      have inside := data.inside
      have inn := data.inn
      have fetched := data.fetched
      exact Nat.mul_le_mul_left _ (by omega)
    rw [data.stored]
    apply Words.blit_outside
    rw [length]
    rcases outside with none | outside
    · rw [data.untouched none]
      omega
    · omega

theorem Inv.complete (fits : x.Fits unread) (inv : x.Inv unread mem s) (done : s.pc = .done) :
    x.Complete mem s := by
  obtain ⟨k, r, data⟩ := inv.data
  have positive := x.bytes_pos
  have none := inv.ctl.tail (by rw [done]; rfl)
  obtain ⟨tx, shift⟩ := isBusy_eq_false.mp (inv.ctl.quiet (by rw [done]; rfl))
  have empty := inv.ctl.done done
  have all : k = x.words := by
    have left := data.left
    rw [none, Nat.add_zero, length] at left
    exact Nat.eq_of_mul_eq_mul_left positive left
  have sent := data.sent
  rw [tx, shift, Option.toList_none, List.append_nil, List.append_nil, all] at sent
  constructor
  · rw [sent, sendWords_bytes fits.buffer]
  · intro recv
    have rest := data.rx recv
    rw [empty] at rest
    have fetched := data.fetched
    have behind : s.inn.length ≤ r := List.drop_eq_nil_iff.mp rest.symm
    have inn : s.inn.length = x.words := by rw [data.inn, sent, List.length_map, List.length_range]
    have bytes : (s.inn.flatMap (leBytes x.bytes)).length = x.length := by
      rw [flatMap_length, inn, length]
    rw [data.stored, List.take_of_length_le behind, ← bytes, Words.slice_blit]

theorem Fits.transfers (fits : x.Fits unread) (mem : Mem) : x.Transfers unread mem where
  safe es := (run_inv fits mem es).safe fits
  complete es := (run_inv fits mem es).complete fits
  returns _ fair := returns x mem fair

end SpiXfer

end NuMakerMA35
