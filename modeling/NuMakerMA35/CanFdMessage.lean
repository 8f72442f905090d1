import NuMakerMA35.CanFd

namespace NuMakerMA35

open Words

def canfdEncodeDLC (numOfBytes : Nat) : Nat :=
  if numOfBytes ≤ 8 then numOfBytes
  else if numOfBytes ≤ 12 then 9
  else if numOfBytes ≤ 16 then 10
  else if numOfBytes ≤ 20 then 11
  else if numOfBytes ≤ 24 then 12
  else if numOfBytes ≤ 32 then 13
  else if numOfBytes ≤ 48 then 14
  else 15

def canfdDecodeDLC (dlc : Nat) : Nat :=
  if dlc ≤ 8 then dlc
  else if dlc = 9 then 12
  else if dlc = 10 then 16
  else if dlc = 11 then 20
  else if dlc = 12 then 24
  else if dlc = 13 then 32
  else if dlc = 14 then 48
  else 64

def canfdSetSid (id : BitVec 29) : BitVec 29 := (id &&& 0x7FF) <<< (29 - 11)
def canfdGetSid (id : BitVec 29) : BitVec 29 := id >>> (29 - 11)

structure RtCanMsg where
  id : BitVec 29
  ide : BitVec 1
  rtr : BitVec 1
  len : BitVec 8
  hdrIndex : BitVec 8
  data : Nat → BitVec 8

/-- The element `nu_canfd_sendmsg` builds from zeroes. -/
def nuCanfdTxMsg (msg : RtCanMsg) : CanfdTxBuf where
  id := if msg.ide = 0 then canfdSetSid msg.id else msg.id
  rtr := msg.rtr
  xtd := msg.ide
  esi := 0
  mmH := 0
  dlc := if 0 < msg.len.toNat then BitVec.ofNat 4 (canfdEncodeDLC msg.len.toNat) else 0
  brs := 0
  fdf := 0
  efc := 0
  mmL := 0
  db k := if k < msg.len.toNat then msg.data k else 0

def nuCanfdSendmsg (c : Canfd) (msg : RtCanMsg) (boxno : Nat) : Int × Canfd :=
  match canfdTransferDtb c (nuCanfdTxMsg msg) boxno with
  | none => (-rtError, c)
  | some c => (rtEok, c)

/-- Fills the caller's `buf`; bytes past the length stay as they were. -/
def nuCanfdRecvmsg (c : Canfd) (buf : RtCanMsg) (boxno : Nat) : Int × Canfd × RtCanMsg :=
  match canfdTransferRf0 c with
  | none => (-rtError, c, buf)
  | some (c, rx) =>
    let len : BitVec 8 := BitVec.ofNat 8 (canfdDecodeDLC rx.dlc.toNat)
    (rtEok, c,
      { id := if rx.xtd = 0 then canfdGetSid rx.id else rx.id
        ide := if rx.xtd = 0 then 0 else 1
        rtr := if rx.rtr = 0 then 0 else 1
        len := len
        hdrIndex := BitVec.ofNat 8 boxno
        data := fun k => if k < len.toNat then rx.db k else buf.data k })

theorem canfdGetSid_setSid {id : BitVec 29} (valid : id.toNat < 2 ^ 11) :
    canfdGetSid (canfdSetSid id) = id := by
  apply BitVec.eq_of_toNat_eq
  have mask : (id &&& 0x7FF).toNat = id.toNat := by
    rw [BitVec.toNat_and]
    exact (Nat.and_two_pow_sub_one_eq_mod id.toNat 11).trans (Nat.mod_eq_of_lt valid)
  simp only [canfdGetSid, canfdSetSid, BitVec.toNat_ushiftRight, BitVec.toNat_shiftLeft, mask,
    Nat.shiftLeft_eq, Nat.shiftRight_eq_div_pow]
  omega

theorem bit_eq_zero_or_one (b : BitVec 1) : b = 0 ∨ b = 1 := by
  revert b
  decide

variable (m : CanfdTxBuf) (ram : Mem) (a : Nat)

theorem CanfdTxBuf.read_t0 : read32 (m.writeTo ram a) a = m.t0 := by
  have words : read32 (m.writeTo ram a) a =
      read32 (write32 (write32 ram a m.t0) (a + 4) m.t1) a := by
    apply read32_congr
    intro x low high
    exact if_neg (by omega)
  rw [words, read32_write32_other m.t1 (by omega), read32_write32]

theorem CanfdTxBuf.read_t1 : read32 (m.writeTo ram a) (a + 4) = m.t1 := by
  have words : read32 (m.writeTo ram a) (a + 4) =
      read32 (write32 (write32 ram a m.t0) (a + 4) m.t1) (a + 4) := by
    apply read32_congr
    intro x low high
    exact if_neg (by omega)
  rw [words, read32_write32]

theorem CanfdTxBuf.read_db {k : Nat} (h : k < 64) : m.writeTo ram a (a + 8 + k) = m.db k := by
  unfold writeTo canfdTxBufSize
  rw [if_pos (by omega), Nat.add_sub_cancel_left]

/-- A receive element that holds the bytes of a transmit element has its header fields and data. -/
theorem CanfdTxBuf.readFrom_copy {ram rxRam : Mem} {a b : Nat}
    (same : ∀ k, k < canfdTxBufSize → rxRam (b + k) = m.writeTo ram a (a + k)) :
    let rx := CanfdRxBuf.readFrom rxRam b
    rx.id = m.id ∧ rx.rtr = m.rtr ∧ rx.xtd = m.xtd ∧ rx.dlc = m.dlc ∧
      ∀ k, k < 64 → rx.db k = m.db k := by
  have word (off : Nat) (within : off + 4 ≤ canfdTxBufSize) :
      read32 rxRam (b + off) = read32 (m.writeTo ram a) (a + off) := by
    unfold read32
    simp only [Nat.add_assoc]
    rw [same (off + 3) (by omega), same (off + 2) (by omega), same (off + 1) (by omega),
      same off (by omega)]
  have first : read32 rxRam b = m.t0 := (word 0 (by decide)).trans (m.read_t0 ram a)
  have second : read32 rxRam (b + 4) = m.t1 := (word 4 (by decide)).trans (m.read_t1 ram a)
  refine ⟨?_, ?_, ?_, ?_, ?_⟩
  · simp only [CanfdRxBuf.readFrom, first, bitField, CanfdTxBuf.t0]
    exact BitVec.extractLsb'_append_eq_right
  · simp only [CanfdRxBuf.readFrom, first, bitField, CanfdTxBuf.t0]
    rw [BitVec.extractLsb'_append_eq_of_le (by decide)]
    exact BitVec.extractLsb'_append_eq_right
  · simp only [CanfdRxBuf.readFrom, first, bitField, CanfdTxBuf.t0]
    rw [BitVec.extractLsb'_append_eq_of_le (by decide),
      BitVec.extractLsb'_append_eq_of_le (by decide)]
    exact BitVec.extractLsb'_append_eq_right
  · simp only [CanfdRxBuf.readFrom, second, bitField, CanfdTxBuf.t1]
    rw [BitVec.extractLsb'_append_eq_of_le (by decide),
      BitVec.extractLsb'_append_eq_of_le (by decide)]
    exact BitVec.extractLsb'_append_eq_right
  · intro k hk
    have byte := same (8 + k) (by unfold canfdTxBufSize; omega)
    simp only [CanfdRxBuf.readFrom]
    rw [Nat.add_assoc, byte, ← Nat.add_assoc, m.read_db ram a hk]

/-- What a received element says of a message that was sent in these bytes. -/
theorem nuCanfdRecvmsg_copy {msg : RtCanMsg} (valid : msg.ide = 0 → msg.id.toNat < 2 ^ 11)
    (short : msg.len.toNat ≤ 8) {rx : Canfd} {ram : Mem} {a : Nat} (pending : 0 < rx.fillLevel)
    (same : ∀ k, k < canfdTxBufSize →
      rx.ram (rx.rf0BufAddr rx.getIndex + k) = (nuCanfdTxMsg msg).writeTo ram a (a + k))
    (buf : RtCanMsg) (boxno : Nat) :
    ∃ rx' got, nuCanfdRecvmsg rx buf boxno = (rtEok, rx', got) ∧ got.id = msg.id ∧
      got.ide = msg.ide ∧ got.rtr = msg.rtr ∧ got.len = msg.len ∧
      ∀ k, k < msg.len.toNat → got.data k = msg.data k := by
  obtain ⟨id, rtr, xtd, dlc, db⟩ := (nuCanfdTxMsg msg).readFrom_copy same
  have length : canfdDecodeDLC (nuCanfdTxMsg msg).dlc.toNat = msg.len.toNat := by
    simp only [nuCanfdTxMsg]
    split_ifs with some
    · have code : canfdEncodeDLC msg.len.toNat = msg.len.toNat := if_pos short
      rw [code, BitVec.toNat_ofNat, Nat.mod_eq_of_lt (by omega)]
      exact if_pos short
    · have none : msg.len.toNat = 0 := by omega
      rw [none]
      rfl
  have bytes : BitVec.ofNat 8 (canfdDecodeDLC (nuCanfdTxMsg msg).dlc.toNat) = msg.len := by
    rw [length]
    simp
  refine ⟨_, _, by rw [nuCanfdRecvmsg, canfdTransferRf0, if_pos pending], ?_, ?_, ?_, ?_, ?_⟩
  · simp only [xtd, id]
    simp only [nuCanfdTxMsg]
    split_ifs with std
    · exact canfdGetSid_setSid (valid std)
    · rfl
  · simp only [xtd]
    simp only [nuCanfdTxMsg]
    rcases bit_eq_zero_or_one msg.ide with std | ext
    · simp [std]
    · simp [ext]
  · simp only [rtr]
    simp only [nuCanfdTxMsg]
    rcases bit_eq_zero_or_one msg.rtr with data | remote
    · simp [data]
    · simp [remote]
  · simp only [dlc, bytes]
  · intro k hk
    simp only [dlc, bytes, if_pos hk, db k (by omega)]
    simp only [nuCanfdTxMsg, if_pos hk]

/-- A message sent in a free buffer and received from an element with the same words is the
message, up to its length. -/
theorem canfd_roundtrip {c : Canfd} {msg : RtCanMsg} {boxno : Nat}
    (valid : msg.ide = 0 → msg.id.toNat < 2 ^ 11) (short : msg.len.toNat ≤ 8)
    (inRange : boxno < canfdMaxTxBufElems) (free : c.txbrp.getLsbD boxno = false) :
    ∃ sent, nuCanfdSendmsg c msg boxno = (rtEok, sent) ∧
      ∀ (rx : Canfd) (buf : RtCanMsg) (box : Nat), 0 < rx.fillLevel →
        (∀ k, k < canfdTxBufSize →
          rx.ram (rx.rf0BufAddr rx.getIndex + k) = sent.ram (sent.txBufAddr boxno + k)) →
        ∃ rx' got, nuCanfdRecvmsg rx buf box = (rtEok, rx', got) ∧ got.id = msg.id ∧
          got.ide = msg.ide ∧ got.rtr = msg.rtr ∧ got.len = msg.len ∧
          ∀ k, k < msg.len.toNat → got.data k = msg.data k := by
  have taken : canfdTransferDtb c (nuCanfdTxMsg msg) boxno = some { c with
      ram := (nuCanfdTxMsg msg).writeTo c.ram (c.txBufAddr boxno)
      txbar := BitVec.ofNat 32 (1 <<< boxno) } := by
    rw [canfdTransferDtb, if_neg (by omega), if_neg (by simp [free])]
  refine ⟨_, by rw [nuCanfdSendmsg, taken], ?_⟩
  intro rx buf box pending same
  exact nuCanfdRecvmsg_copy valid short pending same buf box

theorem canfd_roundtrip_standard :
    ∃ sent, nuCanfdSendmsg canfdIdle ⟨0x7FF, 0, 1, 8, 0, fun k => BitVec.ofNat 8 k⟩ 31 =
        (rtEok, sent) ∧
      ∀ (rx : Canfd) (buf : RtCanMsg) (box : Nat), 0 < rx.fillLevel →
        (∀ k, k < canfdTxBufSize →
          rx.ram (rx.rf0BufAddr rx.getIndex + k) = sent.ram (sent.txBufAddr 31 + k)) →
        ∃ rx' got, nuCanfdRecvmsg rx buf box = (rtEok, rx', got) ∧ got.id = 0x7FF ∧
          got.ide = 0 ∧ got.rtr = 1 ∧ got.len = 8 ∧
          ∀ k, k < (8 : BitVec 8).toNat → got.data k = BitVec.ofNat 8 k :=
  canfd_roundtrip (fun _ => by decide) (by decide) (by decide) (by decide)

end NuMakerMA35
