import NuMakerMA35.RingBuffer

namespace NuMakerMA35

inductive RingOp where
  | put (ptr : List Byte)
  | putForce (ptr : List Byte)
  | putchar (ch : Byte)
  | putcharForce (ch : Byte)
  | get (length : Nat)
  | peek
  | getchar
  | reset

inductive RingReply where
  | count (n : Nat)
  | bytes (xs : List Byte)
  | done
  deriving DecidableEq

namespace RtRingbuffer

def step (rb : RtRingbuffer) : RingOp → RtRingbuffer × RingReply
  | .put ptr => ((rb.put ptr).1, .count (rb.put ptr).2)
  | .putForce ptr => ((rb.putForce ptr).1, .count (rb.putForce ptr).2)
  | .putchar ch => ((rb.putchar ch).1, .count (rb.putchar ch).2)
  | .putcharForce ch => ((rb.putcharForce ch).1, .count (rb.putcharForce ch).2)
  | .get length => ((rb.get length).1, .bytes (rb.get length).2)
  | .peek => (rb.peek.1, .bytes rb.peek.2)
  | .getchar => (rb.getchar.1, .bytes rb.getchar.2)
  | .reset => (rb.reset, .done)

def run : RtRingbuffer → List RingOp → RtRingbuffer × List RingReply
  | rb, [] => (rb, [])
  | rb, op :: ops => ((run (rb.step op).1 ops).1, (rb.step op).2 :: (run (rb.step op).1 ops).2)

end RtRingbuffer

open RtRingbuffer

/-- What a call may do to a queue of at most `cap` bytes, and give back. Only what
`rt_ringbuffer_peek` takes depends on where the bytes lie. -/
inductive FifoStep (cap : Nat) (q : List Byte) : RingOp → RingReply → List Byte → Prop where
  | put (ptr) : FifoStep cap q (.put ptr) (.count (min (asked ptr).length (cap - q.length)))
      (Fifo.put cap q (asked ptr))
  | putForce (ptr) : FifoStep cap q (.putForce ptr) (.count (min (asked ptr).length cap))
      (Fifo.putForce cap q (asked ptr))
  | putchar (ch) : FifoStep cap q (.putchar ch) (.count (min 1 (cap - q.length))) (Fifo.put cap q [ch])
  | putcharForce (ch) : FifoStep cap q (.putcharForce ch) (.count 1) (Fifo.putForce cap q [ch])
  | get (length) : FifoStep cap q (.get length) (.bytes (q.take (toLength length)))
      (q.drop (toLength length))
  | peek (k) : k ≤ q.length → (q ≠ [] → 0 < k) → FifoStep cap q .peek (.bytes (q.take k)) (q.drop k)
  | getchar : FifoStep cap q .getchar (.bytes (q.take 1)) (q.drop 1)
  | reset : FifoStep cap q .reset .done []

inductive FifoRun (cap : Nat) : List Byte → List RingOp → List RingReply → List Byte → Prop where
  | nil (q) : FifoRun cap q [] [] q
  | cons {q q' q'' op ops reply replies} : FifoStep cap q op reply q' →
      FifoRun cap q' ops replies q'' → FifoRun cap q (op :: ops) (reply :: replies) q''

theorem RtRingbuffer.Holds.step {rb : RtRingbuffer} {q : List Byte} (h : rb.Holds q) (op : RingOp) :
    ∃ q', FifoStep rb.bufferSize q op (rb.step op).2 q' ∧ (rb.step op).1.Holds q' ∧
      rb.Within (rb.step op).1 := by
  cases op with
  | put ptr =>
    obtain ⟨holds, count, within⟩ := h.put ptr
    refine ⟨_, ?_, holds, within⟩
    simp only [RtRingbuffer.step, count]
    exact .put ptr
  | putForce ptr =>
    obtain ⟨holds, count, within⟩ := h.putForce ptr
    refine ⟨_, ?_, holds, within⟩
    simp only [RtRingbuffer.step, count]
    exact .putForce ptr
  | putchar ch =>
    obtain ⟨holds, count, within⟩ := h.putchar ch
    refine ⟨_, ?_, holds, within⟩
    simp only [RtRingbuffer.step, count]
    exact .putchar ch
  | putcharForce ch =>
    obtain ⟨holds, count, within⟩ := h.putcharForce ch
    refine ⟨_, ?_, holds, within⟩
    simp only [RtRingbuffer.step, count]
    exact .putcharForce ch
  | get length =>
    obtain ⟨holds, bytes, within⟩ := h.get length
    refine ⟨_, ?_, holds, within⟩
    simp only [RtRingbuffer.step, bytes]
    exact .get length
  | peek =>
    obtain ⟨k, most, least, holds, bytes, within⟩ := h.peek
    refine ⟨_, ?_, holds, within⟩
    simp only [RtRingbuffer.step, bytes]
    exact .peek k most least
  | getchar =>
    obtain ⟨holds, bytes, within⟩ := h.getchar
    refine ⟨_, ?_, holds, within⟩
    simp only [RtRingbuffer.step, bytes]
    exact .getchar
  | reset => exact ⟨[], .reset, h.reset, within_of_eq rfl rfl⟩

theorem RtRingbuffer.Holds.run {rb : RtRingbuffer} {q : List Byte} (h : rb.Holds q) (ops : List RingOp) :
    ∃ q', FifoRun rb.bufferSize q ops (rb.run ops).2 q' ∧ (rb.run ops).1.Holds q' ∧
      rb.Within (rb.run ops).1 := by
  induction ops generalizing rb q with
  | nil => exact ⟨q, .nil q, h, within_of_eq rfl rfl⟩
  | cons op ops ih =>
    obtain ⟨q', stepped, holds, within⟩ := h.step op
    obtain ⟨q'', ran, ends, inside⟩ := ih holds
    rw [within.1] at ran
    refine ⟨q'', .cons stepped ran, ends, inside.1.trans within.1, ?_⟩
    intro i outside
    exact (inside.2 i (by rw [within.1]; exact outside)).trans (within.2 i outside)

def RingOp.accepts : RingOp → RingReply → List Byte
  | .put ptr, .count n => ptr.take n
  | .putchar ch, .count n => [ch].take n
  | _, _ => []

def RingReply.gives : RingReply → List Byte
  | .bytes xs => xs
  | _ => []

def accepted (ops : List RingOp) (replies : List RingReply) : List Byte :=
  (List.zipWith RingOp.accepts ops replies).flatten

def taken (replies : List RingReply) : List Byte := (replies.map RingReply.gives).flatten

theorem accepted_cons (op : RingOp) (reply : RingReply) (ops : List RingOp) (replies : List RingReply) :
    accepted (op :: ops) (reply :: replies) = op.accepts reply ++ accepted ops replies := rfl

theorem taken_cons (reply : RingReply) (replies : List RingReply) :
    taken (reply :: replies) = reply.gives ++ taken replies := rfl

def RingOp.Orderly : RingOp → Prop
  | .putForce _ | .putcharForce _ | .reset => False
  | _ => True

theorem take_asked (ptr : List Byte) (n : Nat) :
    ptr.take (min (asked ptr).length n) = (asked ptr).take n := by
  have least : min (min (toLength ptr.length) n) (toLength ptr.length) = min n (toLength ptr.length) := by
    omega
  rw [asked_length, asked, List.take_take, Nat.min_comm n]

/-- What was in the queue and what came go out in order or are still there. -/
theorem FifoRun.conserves {cap : Nat} {q q' : List Byte} {ops : List RingOp} {replies : List RingReply}
    (ran : FifoRun cap q ops replies q') (orderly : ∀ op ∈ ops, op.Orderly) :
    taken replies ++ q' = q ++ accepted ops replies := by
  induction ran with
  | nil q => exact (List.append_nil q).symm
  | @cons q q₁ q₂ op ops reply replies stepped ran ih =>
    have first := orderly op (List.mem_cons_self ..)
    have rest := ih fun x hx => orderly x (List.mem_cons_of_mem _ hx)
    rw [taken_cons, accepted_cons, List.append_assoc, rest, ← List.append_assoc, ← List.append_assoc]
    congr 1
    cases stepped with
    | put ptr => exact congrArg (q ++ ·) (take_asked ptr _).symm
    | putForce ptr => exact first.elim
    | putchar ch => exact congrArg (q ++ ·) (take_asked [ch] _).symm
    | putcharForce ch => exact first.elim
    | get length => exact (List.take_append_drop _ q).trans (List.append_nil q).symm
    | peek k most least => exact (List.take_append_drop _ q).trans (List.append_nil q).symm
    | getchar => exact (List.take_append_drop _ q).trans (List.append_nil q).symm
    | reset => exact first.elim

/-- Every run of calls on a ring buffer is a run of a queue of bounded length that gives back the
same, and no byte beside the buffer is written. Without a forced put and a reset the bytes come out
as they went in. -/
theorem ringbuffer_refines (pool : Nat → Byte) {size : Nat} (least : rtAlignSize ≤ size)
    (most : size < 2 ^ 15) (ops : List RingOp) :
    ∃ q, FifoRun (size - size % rtAlignSize) [] ops ((rtRingbufferInit pool size).run ops).2 q ∧
      ((rtRingbufferInit pool size).run ops).1.dataLen = q.length ∧
      ((rtRingbufferInit pool size).run ops).1.spaceLen = size - size % rtAlignSize - q.length ∧
      (∀ i, size - size % rtAlignSize ≤ i →
        ((rtRingbufferInit pool size).run ops).1.bufferPtr i = pool i) ∧
      ((∀ op ∈ ops, op.Orderly) → taken ((rtRingbufferInit pool size).run ops).2 ++ q =
        accepted ops ((rtRingbufferInit pool size).run ops).2) := by
  obtain ⟨q, ran, holds, within⟩ := (init_holds pool least most).run ops
  refine ⟨q, ran, holds.dataLen, ?_, within.2, ran.conserves⟩
  rw [holds.spaceLen, within.1]
  rfl

theorem ringbuffer_least : ∃ q, FifoRun 64 [] [.put [1, 2], .putForce [3], .getchar]
    [.count 2, .count 1, .bytes [1]] q := by
  obtain ⟨q, ran, _⟩ := ringbuffer_refines (fun _ => 0) (le_refl rtAlignSize) (by decide)
    [.put [1, 2], .putForce [3], .getchar]
  exact ⟨q, ran⟩

end NuMakerMA35
