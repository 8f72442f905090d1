import NuMakerMA35.UartRx
import Mathlib.Data.List.Basic

namespace NuMakerMA35

def rtAlignSize : Nat := 64

structure RtRingbuffer where
  bufferPtr : Nat → Byte
  readMirror : Bool
  readIndex : Nat
  writeMirror : Bool
  writeIndex : Nat
  bufferSize : Nat

inductive RtRingbufferState where
  | empty
  | full
  | halffull
  deriving DecidableEq

/-- The indices are bit fields of this width. -/
def toIndex (n : Nat) : Nat := n % 2 ^ 15

/-- The lengths are passed as `rt_uint16_t`. -/
def toLength (n : Nat) : Nat := n % 2 ^ 16

/-- `rt_ringbuffer_init`: the size is rounded down to `RT_ALIGN_SIZE`. -/
def rtRingbufferInit (pool : Nat → Byte) (size : Nat) : RtRingbuffer where
  bufferPtr := pool
  readMirror := false
  readIndex := 0
  writeMirror := false
  writeIndex := 0
  bufferSize := size - size % rtAlignSize

namespace RtRingbuffer

def status (rb : RtRingbuffer) : RtRingbufferState :=
  if rb.readIndex = rb.writeIndex then
    if rb.readMirror = rb.writeMirror then .empty else .full
  else .halffull

def dataLen (rb : RtRingbuffer) : Nat :=
  match rb.status with
  | .empty => 0
  | .full => rb.bufferSize
  | .halffull =>
    if rb.writeIndex > rb.readIndex then rb.writeIndex - rb.readIndex
    else rb.bufferSize - (rb.readIndex - rb.writeIndex)

def spaceLen (rb : RtRingbuffer) : Nat := rb.bufferSize - rb.dataLen

/-- What both kinds of put do with `length` bytes before the reader is looked at. -/
def append (rb : RtRingbuffer) (ptr : List Byte) : RtRingbuffer :=
  let first := rb.bufferSize - rb.writeIndex
  if first > ptr.length then
    { rb with
      bufferPtr := Ring.copyTo rb.bufferPtr rb.writeIndex ptr
      writeIndex := toIndex (rb.writeIndex + ptr.length) }
  else
    { rb with
      bufferPtr := Ring.copyTo (Ring.copyTo rb.bufferPtr rb.writeIndex (ptr.take first)) 0 (ptr.drop first)
      writeMirror := !rb.writeMirror
      writeIndex := toIndex (ptr.length - first) }

def put (rb : RtRingbuffer) (ptr : List Byte) : RtRingbuffer × Nat :=
  let length := toLength ptr.length
  let size := rb.spaceLen
  if size = 0 then (rb, 0)
  else
    let length := if size < length then size else length
    (rb.append (ptr.take length), length)

def putForce (rb : RtRingbuffer) (ptr : List Byte) : RtRingbuffer × Nat :=
  let ptr := ptr.take (toLength ptr.length)
  let spaceLength := rb.spaceLen
  let ptr := if ptr.length > rb.bufferSize then ptr.drop (ptr.length - rb.bufferSize) else ptr
  let new := rb.append ptr
  if ptr.length > spaceLength then
    -- without a turn of the writer its mirror is not the reader's already
    if rb.bufferSize - rb.writeIndex > ptr.length then
      ({ new with readIndex := new.writeIndex }, ptr.length)
    else
      ({ new with
        readMirror := if new.writeIndex ≤ new.readIndex then !new.readMirror else new.readMirror
        readIndex := new.writeIndex }, ptr.length)
  else (new, ptr.length)

def advance (rb : RtRingbuffer) (length : Nat) : RtRingbuffer × List Byte :=
  let first := rb.bufferSize - rb.readIndex
  if first > length then
    ({ rb with readIndex := toIndex (rb.readIndex + length) },
      Ring.copyFrom rb.bufferPtr rb.readIndex length)
  else
    ({ rb with readMirror := !rb.readMirror, readIndex := toIndex (length - first) },
      Ring.copyFrom rb.bufferPtr rb.readIndex first ++ Ring.copyFrom rb.bufferPtr 0 (length - first))

def get (rb : RtRingbuffer) (length : Nat) : RtRingbuffer × List Byte :=
  let length := toLength length
  let size := rb.dataLen
  if size = 0 then (rb, []) else rb.advance (if size < length then toLength size else length)

/-- `rt_ringbuffer_peek`, with the bytes that the pointer it hands out leads to. -/
def peek (rb : RtRingbuffer) : RtRingbuffer × List Byte :=
  let size := rb.dataLen
  if size = 0 then (rb, [])
  else
    let first := rb.bufferSize - rb.readIndex
    if first > size then
      ({ rb with readIndex := toIndex (rb.readIndex + toLength size) },
        Ring.copyFrom rb.bufferPtr rb.readIndex size)
    else
      ({ rb with readMirror := !rb.readMirror, readIndex := 0 },
        Ring.copyFrom rb.bufferPtr rb.readIndex first)

def putchar (rb : RtRingbuffer) (ch : Byte) : RtRingbuffer × Nat :=
  if rb.spaceLen = 0 then (rb, 0)
  else
    let rb := { rb with bufferPtr := Function.update rb.bufferPtr rb.writeIndex ch }
    if rb.writeIndex = rb.bufferSize - 1 then
      ({ rb with writeMirror := !rb.writeMirror, writeIndex := 0 }, 1)
    else ({ rb with writeIndex := toIndex (rb.writeIndex + 1) }, 1)

def putcharForce (rb : RtRingbuffer) (ch : Byte) : RtRingbuffer × Nat :=
  let oldState := rb.status
  let rb := { rb with bufferPtr := Function.update rb.bufferPtr rb.writeIndex ch }
  if rb.writeIndex = rb.bufferSize - 1 then
    let rb := { rb with writeMirror := !rb.writeMirror, writeIndex := 0 }
    if oldState = .full then
      ({ rb with readMirror := !rb.readMirror, readIndex := rb.writeIndex }, 1)
    else (rb, 1)
  else
    let rb := { rb with writeIndex := toIndex (rb.writeIndex + 1) }
    if oldState = .full then ({ rb with readIndex := rb.writeIndex }, 1) else (rb, 1)

def getchar (rb : RtRingbuffer) : RtRingbuffer × List Byte :=
  if rb.dataLen = 0 then (rb, [])
  else
    let ch := rb.bufferPtr rb.readIndex
    if rb.readIndex = rb.bufferSize - 1 then
      ({ rb with readMirror := !rb.readMirror, readIndex := 0 }, [ch])
    else ({ rb with readIndex := toIndex (rb.readIndex + 1) }, [ch])

def reset (rb : RtRingbuffer) : RtRingbuffer :=
  { rb with readMirror := false, readIndex := 0, writeMirror := false, writeIndex := 0 }

/-- The buffer holds the bytes `q`, oldest first: the writer is that many places before the reader,
once round the buffer further where their mirrors differ. -/
structure Holds (rb : RtRingbuffer) (q : List Byte) : Prop where
  positive : 0 < rb.bufferSize
  small : rb.bufferSize < 2 ^ 15
  readBelow : rb.readIndex < rb.bufferSize
  writeBelow : rb.writeIndex < rb.bufferSize
  fits : q.length ≤ rb.bufferSize
  place : rb.readIndex + q.length =
    rb.writeIndex + if rb.readMirror = rb.writeMirror then 0 else rb.bufferSize
  bytes : Ring.view rb.bufferSize rb.bufferPtr rb.readIndex q.length = q

variable {rb : RtRingbuffer} {q : List Byte}

theorem init_holds (pool : Nat → Byte) {size : Nat} (least : rtAlignSize ≤ size) (most : size < 2 ^ 15) :
    (rtRingbufferInit pool size).Holds [] := by
  have rest : size % rtAlignSize < rtAlignSize := Nat.mod_lt _ (by decide)
  have positive : 0 < size - size % rtAlignSize := by omega
  have small : size - size % rtAlignSize < 2 ^ 15 := by omega
  exact ⟨positive, small, positive, positive, Nat.zero_le _, rfl, rfl⟩

theorem Holds.dataLen (h : rb.Holds q) : rb.dataLen = q.length := by
  have place := h.place
  have fits := h.fits
  have readBelow := h.readBelow
  have writeBelow := h.writeBelow
  unfold RtRingbuffer.dataLen status
  split_ifs at place with mirrors
  · by_cases same : rb.readIndex = rb.writeIndex
    · simp only [same, mirrors, if_true]
      omega
    · simp only [same, if_false]
      rw [if_pos (by omega)]
      omega
  · by_cases same : rb.readIndex = rb.writeIndex
    · simp only [same, mirrors, if_true, if_false]
      omega
    · simp only [same, if_false]
      rw [if_neg (by omega)]
      omega

theorem Holds.spaceLen (h : rb.Holds q) : rb.spaceLen = rb.bufferSize - q.length := by
  rw [RtRingbuffer.spaceLen, h.dataLen]

theorem Holds.full_iff (h : rb.Holds q) : rb.status = .full ↔ q.length = rb.bufferSize := by
  have place := h.place
  have fits := h.fits
  have readBelow := h.readBelow
  have writeBelow := h.writeBelow
  unfold status
  split_ifs at place with mirrors
  · by_cases same : rb.readIndex = rb.writeIndex
    · simp only [same, mirrors, if_true, reduceCtorEq, false_iff]
      omega
    · simp only [same, if_false, reduceCtorEq, false_iff]
      omega
  · by_cases same : rb.readIndex = rb.writeIndex
    · simp only [same, mirrors, if_true, if_false, true_iff]
      omega
    · simp only [same, if_false, reduceCtorEq, false_iff]
      omega

theorem toIndex_of_lt {n : Nat} (small : rb.bufferSize < 2 ^ 15) (below : n ≤ rb.bufferSize) :
    toIndex n = n := Nat.mod_eq_of_lt (by omega)

theorem if_mirror_turned (read write : Bool) (size : Nat) :
    (if read = !write then 0 else size) = if read = write then size else 0 := by
  cases read <;> cases write <;> rfl

theorem if_mirror_turned' (read write : Bool) (size : Nat) :
    (if (!read) = write then 0 else size) = if read = write then size else 0 := by
  cases read <;> cases write <;> rfl

theorem append_room {ptr : List Byte} (room : rb.bufferSize - rb.writeIndex > ptr.length) :
    rb.append ptr = { rb with
      bufferPtr := Ring.copyTo rb.bufferPtr rb.writeIndex ptr
      writeIndex := toIndex (rb.writeIndex + ptr.length) } := if_pos room

theorem append_turn {ptr : List Byte} (turn : ¬rb.bufferSize - rb.writeIndex > ptr.length) :
    rb.append ptr = { rb with
      bufferPtr := Ring.copyTo (Ring.copyTo rb.bufferPtr rb.writeIndex
        (ptr.take (rb.bufferSize - rb.writeIndex))) 0 (ptr.drop (rb.bufferSize - rb.writeIndex))
      writeMirror := !rb.writeMirror
      writeIndex := toIndex (ptr.length - (rb.bufferSize - rb.writeIndex)) } := if_neg turn

theorem append_bufferPtr {ptr : List Byte} (writeBelow : rb.writeIndex < rb.bufferSize)
    (few : ptr.length ≤ rb.bufferSize) :
    (rb.append ptr).bufferPtr = Ring.put rb.bufferSize rb.bufferPtr rb.writeIndex ptr := by
  by_cases room : rb.bufferSize - rb.writeIndex > ptr.length
  · rw [append_room room, Ring.put_eq_copyTo (by omega)]
  · rw [append_turn room, Ring.put_eq_copyTo_copyTo writeBelow (by omega) few]

theorem append_kept (ptr : List Byte) : (rb.append ptr).bufferSize = rb.bufferSize ∧
    (rb.append ptr).readIndex = rb.readIndex ∧ (rb.append ptr).readMirror = rb.readMirror := by
  by_cases room : rb.bufferSize - rb.writeIndex > ptr.length
  · rw [append_room room]
    exact ⟨rfl, rfl, rfl⟩
  · rw [append_turn room]
    exact ⟨rfl, rfl, rfl⟩

theorem append_write {ptr : List Byte} (small : rb.bufferSize < 2 ^ 15)
    (writeBelow : rb.writeIndex < rb.bufferSize) (few : ptr.length ≤ rb.bufferSize) :
    if rb.bufferSize - rb.writeIndex > ptr.length then
      (rb.append ptr).writeIndex = rb.writeIndex + ptr.length ∧
        (rb.append ptr).writeMirror = rb.writeMirror
    else (rb.append ptr).writeIndex + rb.bufferSize = rb.writeIndex + ptr.length ∧
      (rb.append ptr).writeMirror = !rb.writeMirror := by
  by_cases room : rb.bufferSize - rb.writeIndex > ptr.length
  · rw [if_pos room, append_room room]
    exact ⟨toIndex_of_lt small (by omega), rfl⟩
  · rw [if_neg room, append_turn room]
    have index := toIndex_of_lt small (show ptr.length - (rb.bufferSize - rb.writeIndex) ≤ _ by omega)
    dsimp only
    rw [index]
    exact ⟨by omega, rfl⟩

theorem Holds.put_write (h : rb.Holds q) (ptr : List Byte) :
    Ring.put rb.bufferSize rb.bufferPtr rb.writeIndex ptr =
      Ring.put rb.bufferSize rb.bufferPtr (rb.readIndex + q.length) ptr := by
  rw [h.place]
  split_ifs
  · rfl
  · rw [← Ring.put_start_mod _ _ _ (rb.writeIndex + _), Nat.add_mod_right, Ring.put_start_mod]

theorem Holds.append (h : rb.Holds q) {ptr : List Byte} (room : q.length + ptr.length ≤ rb.bufferSize) :
    (rb.append ptr).Holds (q ++ ptr) := by
  have place := h.place
  have readBelow := h.readBelow
  have writeBelow := h.writeBelow
  have few : ptr.length ≤ rb.bufferSize := by omega
  obtain ⟨size, read, mirror⟩ := @append_kept rb ptr
  have write := append_write h.small h.writeBelow few
  have length := @List.length_append _ q ptr
  have bytes := @Ring.view_put _ _ rb.bufferPtr rb.readIndex _ _ room
  refine ⟨by rw [size]; exact h.positive, by rw [size]; exact h.small, by rw [size, read]; exact readBelow,
    ?_, by rw [size, length]; exact room, ?_, ?_⟩
  · rw [size]
    split_ifs at write with whole
    · omega
    · omega
  · rw [size, read, mirror, length]
    split_ifs at write with whole
    · rw [write.1, write.2]
      omega
    · rw [write.2, if_mirror_turned]
      split_ifs at place ⊢ <;> omega
  · rw [size, read, append_bufferPtr h.writeBelow few, length, h.put_write, bytes, h.bytes]

theorem Holds.over (h : rb.Holds q) {ptr : List Byte} (few : ptr.length ≤ rb.bufferSize)
    (more : rb.bufferSize ≤ q.length + ptr.length) (new : RtRingbuffer)
    (buffer : new.bufferPtr = (rb.append ptr).bufferPtr) (size : new.bufferSize = rb.bufferSize)
    (write : new.writeIndex = (rb.append ptr).writeIndex) (read : new.readIndex = new.writeIndex)
    (mirrors : new.readMirror ≠ new.writeMirror) :
    new.Holds ((q ++ ptr).drop (q.length + ptr.length - rb.bufferSize)) := by
  have place := h.place
  have writeBelow := h.writeBelow
  have moved := append_write h.small h.writeBelow few
  have length : ((q ++ ptr).drop (q.length + ptr.length - rb.bufferSize)).length = rb.bufferSize := by
    rw [List.length_drop, List.length_append]
    omega
  have inside : new.writeIndex < rb.bufferSize := by
    rw [write]
    split_ifs at moved with whole
    · omega
    · omega
  have behind : new.writeIndex % rb.bufferSize = (rb.readIndex + q.length + ptr.length) % rb.bufferSize := by
    have modulo : (rb.readIndex + q.length + ptr.length) % rb.bufferSize =
        (rb.writeIndex + ptr.length) % rb.bufferSize := by
      rw [place]
      split_ifs
      · rfl
      · rw [Nat.add_right_comm, Nat.add_mod_right]
    rw [modulo, write]
    split_ifs at moved with whole
    · rw [moved.1]
    · rw [← moved.1, Nat.add_mod_right]
  refine ⟨by rw [size]; exact h.positive, by rw [size]; exact h.small, by rw [size, read]; exact inside,
    by rw [size]; exact inside, by rw [size, length], ?_, ?_⟩
  · rw [length, if_neg mirrors, read, size]
  · have forced := @Ring.view_put_over _ _ rb.readIndex _ rb.bufferPtr _ few more
    rw [length, size, read, buffer, append_bufferPtr h.writeBelow few, h.put_write, ← Ring.view_start_mod, behind,
      Ring.view_start_mod, forced, h.bytes]

theorem Holds.pop (h : rb.Holds q) {k : Nat} (some : k ≤ q.length) (new : RtRingbuffer)
    (buffer : new.bufferPtr = rb.bufferPtr) (size : new.bufferSize = rb.bufferSize)
    (write : new.writeIndex = rb.writeIndex) (mirror : new.writeMirror = rb.writeMirror)
    (read : if rb.bufferSize - rb.readIndex > k then
        new.readIndex = rb.readIndex + k ∧ new.readMirror = rb.readMirror
      else new.readIndex + rb.bufferSize = rb.readIndex + k ∧ new.readMirror = !rb.readMirror) :
    new.Holds (q.drop k) := by
  have place := h.place
  have fits := h.fits
  have readBelow := h.readBelow
  have writeBelow := h.writeBelow
  have length := List.length_drop (i := k) (l := q)
  have behind : new.readIndex % rb.bufferSize = (rb.readIndex + k) % rb.bufferSize := by
    split_ifs at read with whole
    · rw [read.1]
    · rw [← read.1, Nat.add_mod_right]
  refine ⟨by rw [size]; exact h.positive, by rw [size]; exact h.small, ?_, by rw [size, write]; exact writeBelow,
    by omega, ?_, ?_⟩
  · rw [size]
    split_ifs at read with whole
    · omega
    · omega
  · rw [size, write, mirror, length]
    split_ifs at read with whole
    · rw [read.1, read.2]
      omega
    · rw [read.2, if_mirror_turned']
      split_ifs at place ⊢ <;> omega
  · rw [length, size, buffer, ← Ring.view_start_mod, behind, Ring.view_start_mod,
      ← Ring.view_drop _ some, h.bytes]

theorem Holds.copied (h : rb.Holds q) {k : Nat} (some : k ≤ q.length) :
    (if rb.bufferSize - rb.readIndex > k then Ring.copyFrom rb.bufferPtr rb.readIndex k
      else Ring.copyFrom rb.bufferPtr rb.readIndex (rb.bufferSize - rb.readIndex) ++
        Ring.copyFrom rb.bufferPtr 0 (k - (rb.bufferSize - rb.readIndex))) = q.take k := by
  have fits := h.fits
  have readBelow := h.readBelow
  rw [← h.bytes, Ring.view_take _ some]
  split_ifs with whole
  · rw [Ring.view_eq_copyFrom _ (by omega)]
  · rw [Ring.view_eq_copyFrom_append _ h.readBelow (by omega) (by omega)]

/-- Nothing beside the buffer is written. -/
def Within (rb new : RtRingbuffer) : Prop :=
  new.bufferSize = rb.bufferSize ∧ ∀ i, rb.bufferSize ≤ i → new.bufferPtr i = rb.bufferPtr i

theorem within_of_eq {new : RtRingbuffer} (size : new.bufferSize = rb.bufferSize)
    (buffer : new.bufferPtr = rb.bufferPtr) : rb.Within new :=
  ⟨size, fun i _ => congrFun buffer i⟩

/-- The bytes that a put is asked for, with its length in 16 bits. -/
def asked (ptr : List Byte) : List Byte := ptr.take (toLength ptr.length)

theorem asked_length (ptr : List Byte) : (asked ptr).length = toLength ptr.length := by
  rw [asked, List.length_take]
  exact min_eq_left (Nat.mod_le _ _)

theorem Holds.append_within (h : rb.Holds q) {ptr : List Byte} (few : ptr.length ≤ rb.bufferSize)
    (new : RtRingbuffer) (size : new.bufferSize = rb.bufferSize)
    (buffer : new.bufferPtr = (rb.append ptr).bufferPtr) : rb.Within new := by
  refine ⟨size, ?_⟩
  intro i outside
  have writeBelow := h.writeBelow
  rw [buffer]
  by_cases room : rb.bufferSize - rb.writeIndex > ptr.length
  · rw [append_room room]
    exact Ring.copyTo_outside (.inr (by omega))
  · have first := List.length_take (i := rb.bufferSize - rb.writeIndex) (l := ptr)
    have second := List.length_drop (i := rb.bufferSize - rb.writeIndex) (l := ptr)
    rw [append_turn room]
    dsimp only
    rw [Ring.copyTo_outside (.inr (by omega)), Ring.copyTo_outside (.inr (by omega))]

theorem Holds.put (h : rb.Holds q) (ptr : List Byte) :
    (rb.put ptr).1.Holds (Fifo.put rb.bufferSize q (asked ptr)) ∧
      (rb.put ptr).2 = min (asked ptr).length (rb.bufferSize - q.length) ∧ rb.Within (rb.put ptr).1 := by
  have fits := h.fits
  have asks := asked_length ptr
  have most : toLength ptr.length ≤ ptr.length := Nat.mod_le _ _
  unfold RtRingbuffer.put
  rw [h.spaceLen]
  dsimp only
  by_cases none : rb.bufferSize - q.length = 0
  · rw [if_pos none, Fifo.put_full _ (by omega), none, Nat.min_zero]
    exact ⟨h, rfl, within_of_eq rfl rfl⟩
  · rw [if_neg none]
    have taken : (if rb.bufferSize - q.length < toLength ptr.length then rb.bufferSize - q.length
        else toLength ptr.length) = min (asked ptr).length (rb.bufferSize - q.length) := by
      rw [asks]
      split_ifs <;> omega
    have bytes : ptr.take (min (asked ptr).length (rb.bufferSize - q.length)) =
        (asked ptr).take (rb.bufferSize - q.length) := by
      rw [asked, List.take_take, ← asked, asks, Nat.min_comm]
    have room : q.length + ((asked ptr).take (rb.bufferSize - q.length)).length ≤ rb.bufferSize := by
      rw [List.length_take]
      omega
    rw [taken, bytes]
    exact ⟨h.append room, rfl, h.append_within (by omega) _ (append_kept _).1 rfl⟩

theorem Holds.putForce (h : rb.Holds q) (ptr : List Byte) :
    (rb.putForce ptr).1.Holds (Fifo.putForce rb.bufferSize q (asked ptr)) ∧
      (rb.putForce ptr).2 = min (asked ptr).length rb.bufferSize ∧ rb.Within (rb.putForce ptr).1 := by
  have fits := h.fits
  have place := h.place
  have readBelow := h.readBelow
  have writeBelow := h.writeBelow
  -- what is longer than the buffer only leaves its end
  obtain ⟨last, hlast⟩ : ∃ last, last = if (asked ptr).length > rb.bufferSize then
    (asked ptr).drop ((asked ptr).length - rb.bufferSize) else asked ptr := ⟨_, rfl⟩
  have count : last.length = min (asked ptr).length rb.bufferSize := by
    rw [hlast]
    split_ifs
    · rw [List.length_drop]
      omega
    · omega
  have few : last.length ≤ rb.bufferSize := by omega
  have same : Fifo.putForce rb.bufferSize q (asked ptr) = Fifo.putForce rb.bufferSize q last := by
    rw [hlast]
    split_ifs with long
    · rw [Fifo.putForce_last (by omega), Fifo.putForce_last (by rw [List.length_drop]; omega),
        List.length_drop, show _ - (_ - rb.bufferSize) - rb.bufferSize = 0 by omega, List.drop_zero]
    · rfl
  obtain ⟨size, read, mirror⟩ := @append_kept rb last
  have write := append_write h.small h.writeBelow few
  have within := h.append_within few (rb.append last) size rfl
  have forced := fun more new => h.over few more new
  have dropped : Fifo.putForce rb.bufferSize q last =
      (q ++ last).drop (q.length + last.length - rb.bufferSize) := by
    rw [Fifo.putForce, List.length_append]
  unfold RtRingbuffer.putForce
  rw [h.spaceLen, same, ← count, ← asked]
  dsimp only
  rw [← hlast]
  by_cases more : last.length > rb.bufferSize - q.length
  · rw [if_pos more, dropped]
    by_cases room : rb.bufferSize - rb.writeIndex > last.length
    · rw [if_pos room] at write ⊢
      refine ⟨forced (by omega) _ rfl size rfl rfl ?_, rfl, within⟩
      dsimp only
      rw [mirror, write.2]
      intro mirrors
      rw [if_pos mirrors] at place
      omega
    · rw [if_neg room] at write ⊢
      refine ⟨forced (by omega) _ rfl size rfl rfl ?_, rfl, within⟩
      dsimp only
      rw [mirror, read, write.2]
      by_cases mirrors : rb.readMirror = rb.writeMirror
      · rw [if_pos mirrors] at place
        rw [if_neg (by omega), mirrors]
        exact (Bool.not_ne_self _).symm
      · rw [if_neg mirrors] at place
        rw [if_pos (by omega)]
        intro turned
        exact mirrors (Bool.not_inj turned)
  · rw [if_neg more, Fifo.putForce_of_fits (by omega)]
    exact ⟨h.append (by omega), rfl, within⟩

theorem Holds.append_char (h : rb.Holds q) (ch : Byte) : rb.append [ch] =
    if rb.writeIndex = rb.bufferSize - 1 then
      { rb with
        bufferPtr := Function.update rb.bufferPtr rb.writeIndex ch
        writeMirror := !rb.writeMirror
        writeIndex := 0 }
    else
      { rb with
        bufferPtr := Function.update rb.bufferPtr rb.writeIndex ch
        writeIndex := toIndex (rb.writeIndex + 1) } := by
  have writeBelow := h.writeBelow
  split_ifs with last
  · have one : rb.bufferSize - rb.writeIndex = 1 := by omega
    have turn : ¬rb.bufferSize - rb.writeIndex > [ch].length := by
      rw [List.length_singleton]
      omega
    rw [append_turn turn, one, List.take_of_length_le (by simp), List.drop_of_length_le (by simp),
      Ring.copyTo_nil, Ring.copyTo_singleton]
    rfl
  · have room : rb.bufferSize - rb.writeIndex > [ch].length := by
      rw [List.length_singleton]
      omega
    rw [append_room room, Ring.copyTo_singleton]
    rfl

theorem Holds.putchar (h : rb.Holds q) (ch : Byte) :
    (rb.putchar ch).1.Holds (Fifo.put rb.bufferSize q [ch]) ∧
      (rb.putchar ch).2 = min 1 (rb.bufferSize - q.length) ∧ rb.Within (rb.putchar ch).1 := by
  have fits := h.fits
  have positive := h.positive
  unfold RtRingbuffer.putchar
  rw [h.spaceLen]
  by_cases none : rb.bufferSize - q.length = 0
  · rw [if_pos none, Fifo.put_full _ (by omega), none]
    exact ⟨h, rfl, within_of_eq rfl rfl⟩
  · have stored := h.append_char ch
    have room : q.length + [ch].length ≤ rb.bufferSize := by
      rw [List.length_singleton]
      omega
    have holds := h.append room
    have single : [ch].length ≤ rb.bufferSize := by
      rw [List.length_singleton]
      omega
    have within := h.append_within single (rb.append [ch]) (append_kept _).1 rfl
    rw [if_neg none, Fifo.put_of_fits room, show min 1 (rb.bufferSize - q.length) = 1 by omega]
    dsimp only
    split_ifs at stored ⊢ with last
    · rw [stored] at holds within
      exact ⟨holds, rfl, within⟩
    · rw [stored] at holds within
      exact ⟨holds, rfl, within⟩

theorem Holds.putcharForce (h : rb.Holds q) (ch : Byte) :
    (rb.putcharForce ch).1.Holds (Fifo.putForce rb.bufferSize q [ch]) ∧
      (rb.putcharForce ch).2 = 1 ∧ rb.Within (rb.putcharForce ch).1 := by
  have fits := h.fits
  have positive := h.positive
  have place := h.place
  have readBelow := h.readBelow
  have writeBelow := h.writeBelow
  have single : [ch].length ≤ rb.bufferSize := by
    rw [List.length_singleton]
    omega
  have stored := h.append_char ch
  have within := h.append_within single (rb.append [ch]) (append_kept _).1 rfl
  have dropped : Fifo.putForce rb.bufferSize q [ch] =
      (q ++ [ch]).drop (q.length + [ch].length - rb.bufferSize) := by
    rw [Fifo.putForce, List.length_append]
  unfold RtRingbuffer.putcharForce
  dsimp only
  by_cases full : rb.status = .full
  · have all := h.full_iff.mp full
    have forced := fun new => h.over single (by omega) new
    have apart : rb.readMirror ≠ rb.writeMirror := by
      intro mirrors
      rw [if_pos mirrors] at place
      omega
    rw [dropped, if_pos full, if_pos full]
    split_ifs at stored ⊢ with last
    · rw [stored] at forced within
      refine ⟨forced _ rfl rfl rfl rfl ?_, rfl, within⟩
      intro turned
      exact apart (Bool.not_inj turned)
    · rw [stored] at forced within
      exact ⟨forced _ rfl rfl rfl rfl apart, rfl, within⟩
  · have some := mt h.full_iff.mpr full
    have room : q.length + [ch].length ≤ rb.bufferSize := by
      rw [List.length_singleton]
      omega
    have holds := h.append room
    rw [Fifo.putForce_of_fits room, if_neg full, if_neg full]
    split_ifs at stored ⊢ with last
    · rw [stored] at holds within
      exact ⟨holds, rfl, within⟩
    · rw [stored] at holds within
      exact ⟨holds, rfl, within⟩

theorem advance_room {k : Nat} (room : rb.bufferSize - rb.readIndex > k) : rb.advance k =
    ({ rb with readIndex := toIndex (rb.readIndex + k) }, Ring.copyFrom rb.bufferPtr rb.readIndex k) :=
  if_pos room

theorem advance_turn {k : Nat} (turn : ¬rb.bufferSize - rb.readIndex > k) : rb.advance k =
    ({ rb with
        readMirror := !rb.readMirror
        readIndex := toIndex (k - (rb.bufferSize - rb.readIndex)) },
      Ring.copyFrom rb.bufferPtr rb.readIndex (rb.bufferSize - rb.readIndex) ++
        Ring.copyFrom rb.bufferPtr 0 (k - (rb.bufferSize - rb.readIndex))) := if_neg turn

theorem Holds.advance (h : rb.Holds q) {k : Nat} (some : k ≤ q.length) :
    (rb.advance k).1.Holds (q.drop k) ∧ (rb.advance k).2 = q.take k ∧ rb.Within (rb.advance k).1 := by
  have fits := h.fits
  have small := h.small
  have readBelow := h.readBelow
  have copied := h.copied some
  have pop := h.pop some
  by_cases room : rb.bufferSize - rb.readIndex > k
  · have index := toIndex_of_lt small (show rb.readIndex + k ≤ rb.bufferSize by omega)
    rw [advance_room room, index]
    rw [if_pos room] at copied
    simp only [if_pos room] at pop
    exact ⟨pop _ rfl rfl rfl rfl ⟨rfl, rfl⟩, copied, within_of_eq rfl rfl⟩
  · have index := toIndex_of_lt small (show k - (rb.bufferSize - rb.readIndex) ≤ rb.bufferSize by omega)
    rw [advance_turn room, index]
    rw [if_neg room] at copied
    simp only [if_neg room] at pop
    refine ⟨pop _ rfl rfl rfl rfl ⟨?_, rfl⟩, copied, within_of_eq rfl rfl⟩
    dsimp only
    omega

theorem Holds.get (h : rb.Holds q) (length : Nat) :
    (rb.get length).1.Holds (q.drop (toLength length)) ∧ (rb.get length).2 = q.take (toLength length) ∧
      rb.Within (rb.get length).1 := by
  have fits := h.fits
  have small := h.small
  unfold RtRingbuffer.get
  rw [h.dataLen]
  dsimp only
  by_cases none : q.length = 0
  · obtain rfl := List.eq_nil_of_length_eq_zero none
    rw [if_pos none, List.drop_nil, List.take_nil]
    exact ⟨h, rfl, within_of_eq rfl rfl⟩
  · have taken : (if q.length < toLength length then toLength q.length else toLength length) =
        min (toLength length) q.length := by
      split_ifs
      · rw [toLength, Nat.mod_eq_of_lt (by omega)]
        omega
      · omega
    rw [if_neg none, taken, List.drop_eq_drop_min, List.take_eq_take_min]
    exact h.advance (by omega)

theorem Holds.peek (h : rb.Holds q) : ∃ k, k ≤ q.length ∧ (q ≠ [] → 0 < k) ∧
    rb.peek.1.Holds (q.drop k) ∧ rb.peek.2 = q.take k ∧ rb.Within rb.peek.1 := by
  have fits := h.fits
  have small := h.small
  have readBelow := h.readBelow
  unfold RtRingbuffer.peek
  rw [h.dataLen]
  dsimp only
  by_cases none : q.length = 0
  · obtain rfl := List.eq_nil_of_length_eq_zero none
    rw [if_pos none]
    exact ⟨0, by simp, by simp, h, rfl, within_of_eq rfl rfl⟩
  · rw [if_neg none]
    split_ifs with room
    · have advanced := h.advance (k := q.length) (le_refl _)
      have whole : toLength q.length = q.length := Nat.mod_eq_of_lt (by omega)
      rw [advance_room room] at advanced
      rw [whole]
      exact ⟨q.length, le_refl _, fun _ => by omega, advanced⟩
    · have advanced := h.advance (k := rb.bufferSize - rb.readIndex) (by omega)
      rw [advance_turn (by omega), Nat.sub_self] at advanced
      simp only [Ring.copyFrom, List.range_zero, List.map_nil, List.append_nil] at advanced
      exact ⟨rb.bufferSize - rb.readIndex, by omega, fun _ => by omega, advanced⟩

theorem Holds.getchar (h : rb.Holds q) : rb.getchar.1.Holds (q.drop 1) ∧ rb.getchar.2 = q.take 1 ∧
    rb.Within rb.getchar.1 := by
  have readBelow := h.readBelow
  unfold RtRingbuffer.getchar
  rw [h.dataLen]
  dsimp only
  by_cases none : q.length = 0
  · obtain rfl := List.eq_nil_of_length_eq_zero none
    rw [if_pos none]
    exact ⟨h, rfl, within_of_eq rfl rfl⟩
  · have advanced := h.advance (k := 1) (by omega)
    rw [if_neg none]
    split_ifs with last
    · rw [advance_turn (by omega), show rb.bufferSize - rb.readIndex = 1 by omega] at advanced
      simpa [Ring.copyFrom, toIndex] using advanced
    · rw [advance_room (by omega)] at advanced
      simpa [Ring.copyFrom] using advanced

theorem Holds.reset (h : rb.Holds q) : rb.reset.Holds [] :=
  ⟨h.positive, h.small, h.positive, h.positive, Nat.zero_le _, rfl, rfl⟩

end RtRingbuffer

end NuMakerMA35
