import NuMakerMA35.RingBufferRuns
import NuMakerMA35.Words

namespace NuMakerMA35

abbrev RtInputcaptureData := U32 × Bool

def recordBytes (data : RtInputcaptureData) : List Byte :=
  [data.1.extractLsb' 0 8, data.1.extractLsb' 8 8, data.1.extractLsb' 16 8, data.1.extractLsb' 24 8,
    if data.2 then 1 else 0, 0, 0, 0]

def recordsOf : List Byte → List RtInputcaptureData
  | b0 :: b1 :: b2 :: b3 :: b4 :: b5 :: b6 :: b7 :: rest =>
    (b3 ++ b2 ++ b1 ++ b0, b7 ++ b6 ++ b5 ++ b4 ≠ (0 : U32)) :: recordsOf rest
  | _ => []

/-- `rt_ringbuffer_create`: the size is rounded down before `rt_ringbuffer_init` does so again. -/
def rtRingbufferCreate (pool : Nat → Byte) (size : Nat) : RtRingbuffer :=
  rtRingbufferInit pool (toLength size - toLength size % rtAlignSize)

def recordSize : Nat := 8

structure RtInputcapture where
  ringbuff : RtRingbuffer
  watermark : Nat

/-- What happens to an open capture device: an interrupt with what `get_pulsewidth` then finds, a read
and the two commands. -/
inductive CaptureCall where
  | isr (pulsewidth : Option U32) (level : Bool)
  | read (size : Nat)
  | clearBuf
  | setWatermark (n : Nat)

/-- An interrupt may pass a number of records on to `rx_indicate`. -/
inductive CaptureReply where
  | indicate (n : Option Nat)
  | records (n : Nat) (data : List RtInputcaptureData)
  | done

namespace RtInputcapture

/-- The device after `rt_inputcapture_init` and `rt_inputcapture_open`, for a value of
`RT_INPUT_CAPTURE_RB_SIZE`. -/
def opened (pool : Nat → Byte) (rbSize : Nat) : RtInputcapture where
  ringbuff := rtRingbufferCreate pool (recordSize * rbSize)
  watermark := rbSize / 2

def isr (s : RtInputcapture) (pulsewidth : Option U32) (level : Bool) : RtInputcapture × CaptureReply :=
  match pulsewidth with
  | none => (s, .indicate none)
  | some width =>
    let s := { s with ringbuff := (s.ringbuff.put (recordBytes (width, level))).1 }
    let receiveSize := s.ringbuff.dataLen / recordSize
    (s, .indicate (if receiveSize ≥ s.watermark then some receiveSize else none))

def read (s : RtInputcapture) (size : Nat) : RtInputcapture × CaptureReply :=
  let got := s.ringbuff.get (recordSize * size)
  ({ s with ringbuff := got.1 }, .records (got.2.length / recordSize) (recordsOf got.2))

/-- A call, with `rt_inputcapture_control` for the commands. -/
def step (s : RtInputcapture) : CaptureCall → RtInputcapture × CaptureReply
  | .isr pulsewidth level => s.isr pulsewidth level
  | .read size => s.read size
  | .clearBuf => ({ s with ringbuff := s.ringbuff.reset }, .done)
  | .setWatermark n => ({ s with watermark := n }, .done)

def run : RtInputcapture → List CaptureCall → List CaptureReply
  | _, [] => []
  | s, call :: calls => (s.step call).2 :: run (s.step call).1 calls

end RtInputcapture

/-- A queue of whole records: a full one drops what is captured. -/
structure CaptureQueue where
  cap : Nat
  records : List RtInputcaptureData
  watermark : Nat

namespace CaptureQueue

/-- A read is asked for in bytes with 16 bits. -/
def step (s : CaptureQueue) : CaptureCall → CaptureQueue × CaptureReply
  | .isr none _ => (s, .indicate none)
  | .isr (some width) level =>
    let s := { s with records := Fifo.put s.cap s.records [(width, level)] }
    (s, .indicate (if s.records.length ≥ s.watermark then some s.records.length else none))
  | .read size =>
    let size := size % 2 ^ 13
    ({ s with records := s.records.drop size },
      .records (min size s.records.length) (s.records.take size))
  | .clearBuf => ({ s with records := [] }, .done)
  | .setWatermark n => ({ s with watermark := n }, .done)

def run : CaptureQueue → List CaptureCall → List CaptureReply
  | _, [] => []
  | s, call :: calls => (s.step call).2 :: run (s.step call).1 calls

end CaptureQueue

def bytesOf (records : List RtInputcaptureData) : List Byte := (records.map recordBytes).flatten

theorem bytesOf_length (records : List RtInputcaptureData) :
    (bytesOf records).length = recordSize * records.length := by
  induction records with
  | nil => rfl
  | cons data records ih =>
    simp only [bytesOf, List.map_cons, List.flatten_cons, List.length_append, List.length_cons] at ih ⊢
    rw [ih]
    simp only [recordBytes, List.length_cons, List.length_nil, recordSize]
    omega

theorem bytesOf_append (records more : List RtInputcaptureData) :
    bytesOf (records ++ more) = bytesOf records ++ bytesOf more := by
  rw [bytesOf, List.map_append, List.flatten_append, ← bytesOf, ← bytesOf]

theorem bytesOf_split (records : List RtInputcaptureData) (k : Nat) :
    (bytesOf records).take (recordSize * k) = bytesOf (records.take k) ∧
      (bytesOf records).drop (recordSize * k) = bytesOf (records.drop k) := by
  by_cases all : records.length ≤ k
  · have long : (bytesOf records).length ≤ recordSize * k := by
      rw [bytesOf_length]
      exact Nat.mul_le_mul_left _ all
    rw [List.take_of_length_le all, List.drop_of_length_le all, List.take_of_length_le long,
      List.drop_of_length_le long]
    exact ⟨rfl, rfl⟩
  · have length : (bytesOf (records.take k)).length = recordSize * k := by
      rw [bytesOf_length, List.length_take, min_eq_left (by omega)]
    have split := bytesOf_append (records.take k) (records.drop k)
    rw [List.take_append_drop] at split
    rw [split]
    exact ⟨List.take_left' length, List.drop_left' length⟩

theorem word_of_bytes (width : U32) : width.extractLsb' 24 8 ++ width.extractLsb' 16 8 ++
    width.extractLsb' 8 8 ++ width.extractLsb' 0 8 = width := by
  have whole := Words.read32_write32 (fun _ => 0) 0 width
  simpa [Words.read32, Words.write32] using whole

theorem level_of_bytes (level : Bool) :
    decide (((0 : Byte) ++ (0 : Byte) ++ (0 : Byte) ++ (if level then 1 else 0 : Byte) : U32) ≠ 0) = level := by
  cases level <;> decide

theorem recordsOf_bytesOf (records : List RtInputcaptureData) : recordsOf (bytesOf records) = records := by
  induction records with
  | nil => rfl
  | cons data records ih =>
    obtain ⟨width, level⟩ := data
    have rest : bytesOf ((width, level) :: records) = recordBytes (width, level) ++ bytesOf records := rfl
    rw [rest, recordBytes]
    simp only [List.cons_append, List.nil_append, recordsOf, ih, word_of_bytes, level_of_bytes]

structure RtInputcapture.Shows (s : RtInputcapture) (t : CaptureQueue) : Prop where
  holds : s.ringbuff.Holds (bytesOf t.records)
  size : s.ringbuff.bufferSize = recordSize * t.cap
  watermark : s.watermark = t.watermark

theorem put_recordBytes (cap : Nat) (records : List RtInputcaptureData) (data : RtInputcaptureData) :
    Fifo.put (recordSize * cap) (bytesOf records) (RtRingbuffer.asked (recordBytes data)) =
      bytesOf (Fifo.put cap records [data]) := by
  have whole : RtRingbuffer.asked (recordBytes data) = bytesOf [data] :=
    (List.append_nil (recordBytes data)).symm
  rw [whole, Fifo.put, Fifo.put, bytesOf_length, ← Nat.mul_sub, (bytesOf_split [data] _).1, bytesOf_append]

theorem toLength_records (size : Nat) :
    toLength (recordSize * size) = recordSize * (size % 2 ^ 13) :=
  Nat.mul_mod_mul_left recordSize size (2 ^ 13)

theorem RtInputcapture.Shows.step {s : RtInputcapture} {t : CaptureQueue} (h : s.Shows t)
    (call : CaptureCall) : (s.step call).1.Shows (t.step call).1 ∧ (s.step call).2 = (t.step call).2 := by
  cases call with
  | isr pulsewidth level =>
    cases pulsewidth with
    | none => exact ⟨h, rfl⟩
    | some width =>
      obtain ⟨holds, _, within⟩ := h.holds.put (recordBytes (width, level))
      rw [h.size, put_recordBytes] at holds
      have shows : ({ s with ringbuff := (s.ringbuff.put (recordBytes (width, level))).1 } :
          RtInputcapture).Shows { t with records := Fifo.put t.cap t.records [(width, level)] } :=
        ⟨holds, within.1.trans h.size, h.watermark⟩
      have unread : (s.ringbuff.put (recordBytes (width, level))).1.dataLen / recordSize =
          (Fifo.put t.cap t.records [(width, level)]).length := by
        rw [holds.dataLen, bytesOf_length]
        exact Nat.mul_div_cancel_left _ (by decide)
      refine ⟨shows, ?_⟩
      simp only [RtInputcapture.step, RtInputcapture.isr, CaptureQueue.step, unread, h.watermark]
  | read size =>
    obtain ⟨holds, bytes, within⟩ := h.holds.get (recordSize * size)
    obtain ⟨first, rest⟩ := bytesOf_split t.records (size % 2 ^ 13)
    rw [toLength_records, rest] at holds
    rw [toLength_records, first] at bytes
    refine ⟨⟨holds, within.1.trans h.size, h.watermark⟩, ?_⟩
    simp only [RtInputcapture.step, RtInputcapture.read, CaptureQueue.step, bytes, recordsOf_bytesOf,
      bytesOf_length, List.length_take]
    rw [Nat.mul_div_cancel_left _ (by decide)]
  | clearBuf => exact ⟨⟨h.holds.reset, h.size, h.watermark⟩, rfl⟩
  | setWatermark n => exact ⟨⟨h.holds, h.size, rfl⟩, rfl⟩

/-- The number of whole records that a ring buffer has room for. -/
def captureCap (rbSize : Nat) : Nat := rbSize - rbSize % recordSize

theorem opened_shows (pool : Nat → Byte) {rbSize : Nat} (least : recordSize ≤ rbSize) (most : rbSize < 2 ^ 12) :
    (RtInputcapture.opened pool rbSize).Shows ⟨captureCap rbSize, [], rbSize / 2⟩ := by
  have whole : recordSize * rbSize % rtAlignSize = recordSize * (rbSize % recordSize) :=
    Nat.mul_mod_mul_left recordSize rbSize recordSize
  have rest : rbSize % recordSize < recordSize := Nat.mod_lt _ (by decide)
  have length : toLength (recordSize * rbSize) = recordSize * rbSize := by
    apply Nat.mod_eq_of_lt
    simp only [recordSize]
    omega
  have rounded : recordSize * rbSize - recordSize * rbSize % rtAlignSize = recordSize * captureCap rbSize := by
    rw [whole, captureCap, Nat.mul_sub]
  have again : recordSize * captureCap rbSize % rtAlignSize = 0 := by
    rw [← rounded]
    simp only [rtAlignSize]
    omega
  have positive : rtAlignSize ≤ recordSize * captureCap rbSize := by
    simp only [rtAlignSize, recordSize, captureCap] at *
    omega
  have small : recordSize * captureCap rbSize < 2 ^ 15 := by
    simp only [recordSize, captureCap] at *
    omega
  refine ⟨?_, ?_, rfl⟩
  · simp only [RtInputcapture.opened, rtRingbufferCreate, length, rounded]
    exact RtRingbuffer.init_holds pool positive small
  · simp only [RtInputcapture.opened, rtRingbufferCreate, length, rounded, rtRingbufferInit, again]
    rfl

/-- Every run of an input capture device, with its interrupts and reads in any order, is a run of a
queue of whole records: a read never finds part of a record, and a record is dropped only where as
many as the buffer has room for are unread. -/
theorem inputcapture_refines (pool : Nat → Byte) {rbSize : Nat} (least : recordSize ≤ rbSize)
    (most : rbSize < 2 ^ 12) (calls : List CaptureCall) :
    (RtInputcapture.opened pool rbSize).run calls =
      CaptureQueue.run ⟨captureCap rbSize, [], rbSize / 2⟩ calls := by
  have start := opened_shows pool least most
  generalize RtInputcapture.opened pool rbSize = s at start
  generalize (⟨captureCap rbSize, [], rbSize / 2⟩ : CaptureQueue) = t at start
  induction calls generalizing s t with
  | nil => rfl
  | cons call calls ih =>
    obtain ⟨shows, reply⟩ := start.step call
    rw [RtInputcapture.run, CaptureQueue.run, reply, ih _ _ shows]

theorem inputcapture_least : (RtInputcapture.opened (fun _ => 0) 8).run
    [.setWatermark 1, .isr (some 5) true, .isr none false, .read 3] =
      [.done, .indicate (some 1), .indicate none, .records 1 [(5, true)]] :=
  inputcapture_refines (fun _ => 0) (by decide) (by decide) _

end NuMakerMA35
