import NuMakerMA35.CanFdMessage

namespace NuMakerMA35

open Words

structure Store where
  addr : Nat
  bytes : List (BitVec 8)

def Store.run (mem : Mem) (s : Store) : Mem := blit mem s.addr s.bytes

def Store.Within (s : Store) (low high : Nat) : Prop :=
  low ≤ s.addr ∧ s.addr + s.bytes.length ≤ high

/-- The bytes of `rt_can_msg.data`, in a build with `RT_CAN_USING_CANFD` or without. -/
def rtCanMsgDataSize (usingCanfd : Bool) : Nat := if usingCanfd then 64 else 8

/-- `data` stands behind two words of bit-fields. -/
def rtCanMsgDataAt : Nat := 8

def rtCanMsgSize (usingCanfd : Bool) : Nat := rtCanMsgDataAt + rtCanMsgDataSize usingCanfd

/-- The first word of bit-fields, with the bit nothing sets as it was. -/
def nuCanfdRecvmsgWord (rx : CanfdRxBuf) (old : U32) : U32 :=
  let id : BitVec 29 := if rx.xtd = 0 then canfdGetSid rx.id else rx.id
  let ide : BitVec 1 := if rx.xtd = 0 then 0 else 1
  let rtr : BitVec 1 := if rx.rtr = 0 then 0 else 1
  (bitField old 31 1 ++ rtr ++ ide ++ id : BitVec (1 + 1 + 1 + 29))

def wordBytes (w : U32) : List (BitVec 8) :=
  [w.extractLsb' 0 8, w.extractLsb' 8 8, w.extractLsb' 16 8, w.extractLsb' 24 8]

/-- The message at an address, as a build without `RT_CAN_USING_HDR` lays it out. -/
def RtCanMsg.readFrom (mem : Mem) (a : Nat) : RtCanMsg where
  id := bitField (read32 mem a) 0 29
  ide := bitField (read32 mem a) 29 1
  rtr := bitField (read32 mem a) 30 1
  len := mem (a + 4)
  hdrIndex := mem (a + 6)
  data k := mem (a + rtCanMsgDataAt + k)

/-- The bytes `nu_canfd_recvmsg` writes for a received element. -/
def nuCanfdRecvmsgStores (rx : CanfdRxBuf) (mem : Mem) (buf : Nat) : List Store :=
  let len : BitVec 8 := BitVec.ofNat 8 (canfdDecodeDLC rx.dlc.toNat)
  [⟨buf, wordBytes (nuCanfdRecvmsgWord rx (read32 mem buf))⟩, ⟨buf + 4, [len]⟩] ++
    if 0 < len.toNat then
      [⟨buf + rtCanMsgDataAt, (List.range len.toNat).map rx.db⟩]
    else []

/-- `nu_canfd_recvmsg` on the message at `buf`: its result, the controller, and the stores. -/
def nuCanfdRecvmsgAt (c : Canfd) (mem : Mem) (buf : Nat) : Int × Canfd × List Store :=
  match canfdTransferRf0 c with
  | none => (-rtError, c, [])
  | some (c, rx) => (rtEok, c, nuCanfdRecvmsgStores rx mem buf)

def Canfd.pendingElement (c : Canfd) : CanfdRxBuf := .readFrom c.ram (c.rf0BufAddr c.getIndex)

/-- Nothing outside the caller's message is written, and `len` counts bytes of its `data`. -/
def RecvmsgSafe (usingCanfd : Bool) (c : Canfd) : Prop :=
  ∀ mem buf, let run := nuCanfdRecvmsgAt c mem buf
    (∀ s ∈ run.2.2, s.Within buf (buf + rtCanMsgSize usingCanfd)) ∧
      (run.1 = rtEok → (RtCanMsg.readFrom (run.2.2.foldl Store.run mem) buf).len.toNat ≤
        rtCanMsgDataSize usingCanfd)

theorem canfdDecodeDLC_le (dlc : Nat) : canfdDecodeDLC dlc ≤ 64 := by
  unfold canfdDecodeDLC
  split_ifs <;> omega

theorem canfdDecodeDLC_classic {dlc : Nat} : canfdDecodeDLC dlc ≤ 8 ↔ dlc ≤ 8 := by
  unfold canfdDecodeDLC
  split_ifs <;> omega

theorem decoded_length (dlc : Nat) :
    (BitVec.ofNat 8 (canfdDecodeDLC dlc)).toNat = canfdDecodeDLC dlc := by
  have small := canfdDecodeDLC_le dlc
  rw [BitVec.toNat_ofNat, Nat.mod_eq_of_lt (by omega)]

section Stores

variable (rx : CanfdRxBuf) (mem : Mem) (buf : Nat)

theorem recvmsgStores_none (none : canfdDecodeDLC rx.dlc.toNat = 0) :
    nuCanfdRecvmsgStores rx mem buf =
      [⟨buf, wordBytes (nuCanfdRecvmsgWord rx (read32 mem buf))⟩, ⟨buf + 4, [0]⟩] := by
  simp [nuCanfdRecvmsgStores, none]

theorem recvmsgStores_some (some : 0 < canfdDecodeDLC rx.dlc.toNat) :
    nuCanfdRecvmsgStores rx mem buf =
      [⟨buf, wordBytes (nuCanfdRecvmsgWord rx (read32 mem buf))⟩,
        ⟨buf + 4, [BitVec.ofNat 8 (canfdDecodeDLC rx.dlc.toNat)]⟩,
        ⟨buf + rtCanMsgDataAt, (List.range (canfdDecodeDLC rx.dlc.toNat)).map rx.db⟩] := by
  have length := decoded_length rx.dlc.toNat
  simp only [nuCanfdRecvmsgStores, length, if_pos some]
  rfl

theorem recvmsgStores_within {high : Nat} :
    (∀ s ∈ nuCanfdRecvmsgStores rx mem buf, s.Within buf (buf + (rtCanMsgDataAt + high))) ↔
      canfdDecodeDLC rx.dlc.toNat ≤ high := by
  have word (w : U32) : (wordBytes w).length = 4 := rfl
  rcases Nat.eq_zero_or_pos (canfdDecodeDLC rx.dlc.toNat) with none | some
  · rw [recvmsgStores_none rx mem buf none]
    simp only [List.forall_mem_cons, Store.Within, word, List.length_cons, List.length_nil,
      rtCanMsgDataAt]
    refine ⟨fun _ => by omega, fun _ => ⟨by omega, by omega, ?_⟩⟩
    exact fun _ h => absurd h List.not_mem_nil
  · rw [recvmsgStores_some rx mem buf some]
    simp only [List.forall_mem_cons, Store.Within, word, List.length_cons, List.length_nil,
      List.length_map, List.length_range, rtCanMsgDataAt]
    refine ⟨fun within => by omega, fun _ => ⟨by omega, by omega, by omega, ?_⟩⟩
    exact fun _ h => absurd h List.not_mem_nil

theorem recvmsgStores_len :
    (RtCanMsg.readFrom ((nuCanfdRecvmsgStores rx mem buf).foldl Store.run mem) buf).len =
      BitVec.ofNat 8 (canfdDecodeDLC rx.dlc.toNat) := by
  have byte (m : Mem) (b : BitVec 8) : blit m (buf + 4) [b] (buf + 4) = b := by
    simp [blit]
  unfold RtCanMsg.readFrom
  rcases Nat.eq_zero_or_pos (canfdDecodeDLC rx.dlc.toNat) with none | some
  · rw [recvmsgStores_none rx mem buf none, none]
    exact byte _ _
  · rw [recvmsgStores_some rx mem buf some]
    simp only [List.foldl_cons, List.foldl_nil, Store.run]
    rw [blit_outside (by unfold rtCanMsgDataAt; omega), byte]

theorem recvmsgStores_data (k : Nat) :
    (RtCanMsg.readFrom ((nuCanfdRecvmsgStores rx mem buf).foldl Store.run mem) buf).data k =
      if k < canfdDecodeDLC rx.dlc.toNat then rx.db k else (RtCanMsg.readFrom mem buf).data k := by
  have word (w : U32) : (wordBytes w).length = 4 := rfl
  have head (m : Mem) (w : U32) (b : BitVec 8) :
      blit (blit m buf (wordBytes w)) (buf + 4) [b] (buf + rtCanMsgDataAt + k) =
        m (buf + rtCanMsgDataAt + k) := by
    rw [blit_outside (by simp [rtCanMsgDataAt]; omega),
      blit_outside (by rw [word]; unfold rtCanMsgDataAt; omega)]
  unfold RtCanMsg.readFrom
  rcases Nat.eq_zero_or_pos (canfdDecodeDLC rx.dlc.toNat) with none | some
  · rw [recvmsgStores_none rx mem buf none, none, if_neg (Nat.not_lt_zero k)]
    exact head _ _ _
  · rw [recvmsgStores_some rx mem buf some]
    simp only [List.foldl_cons, List.foldl_nil, Store.run]
    split_ifs with inside
    · simp [blit, inside]
    · rw [blit_outside (by simp; omega)]
      exact head _ _ _

end Stores

theorem nuCanfdRecvmsgAt_pending {c : Canfd} (pending : 0 < c.fillLevel) (mem : Mem) (buf : Nat) :
    nuCanfdRecvmsgAt c mem buf = (rtEok, { c with rxAck := some c.getIndex },
      nuCanfdRecvmsgStores c.pendingElement mem buf) := by
  rw [nuCanfdRecvmsgAt, canfdTransferRf0, if_pos pending]
  rfl

theorem nuCanfdRecvmsgAt_empty {c : Canfd} (empty : c.fillLevel = 0) (mem : Mem) (buf : Nat) :
    nuCanfdRecvmsgAt c mem buf = (-rtError, c, []) := by
  rw [nuCanfdRecvmsgAt, canfdTransferRf0, if_neg (by omega)]

theorem recvmsgSafe_iff_decoded (usingCanfd : Bool) (c : Canfd) :
    RecvmsgSafe usingCanfd c ↔ c.fillLevel = 0 ∨
      canfdDecodeDLC c.pendingElement.dlc.toNat ≤ rtCanMsgDataSize usingCanfd := by
  unfold RecvmsgSafe
  by_cases empty : c.fillLevel = 0
  · simp only [nuCanfdRecvmsgAt_empty empty, empty, true_or, iff_true]
    intro mem buf
    exact ⟨fun s hs => absurd hs List.not_mem_nil, fun ok => absurd ok (by decide)⟩
  · have pending : 0 < c.fillLevel := by omega
    simp only [nuCanfdRecvmsgAt_pending pending, empty, false_or]
    constructor
    · intro safe
      exact (recvmsgStores_within _ _ _).mp (safe (fun _ => 0) 0).1
    · intro fits mem buf
      refine ⟨(recvmsgStores_within _ _ _).mpr fits, fun _ => ?_⟩
      rw [recvmsgStores_len, decoded_length]
      exact fits

/-- An element reaches past the caller's message exactly when its length code is above 8 and
`data` has eight bytes. -/
theorem recvmsg_safe_iff (usingCanfd : Bool) (c : Canfd) :
    RecvmsgSafe usingCanfd c ↔
      usingCanfd = true ∨ c.fillLevel = 0 ∨ c.pendingElement.dlc.toNat ≤ 8 := by
  rw [recvmsgSafe_iff_decoded]
  cases usingCanfd with
  | true =>
    have fits := canfdDecodeDLC_le c.pendingElement.dlc.toNat
    simp [rtCanMsgDataSize, fits]
  | false =>
    simp only [rtCanMsgDataSize, Bool.false_eq_true, if_false, false_or, canfdDecodeDLC_classic]

theorem recvmsgAt_refines {c : Canfd} (pending : 0 < c.fillLevel) (mem : Mem) (buf boxno : Nat) :
    let got := RtCanMsg.readFrom ((nuCanfdRecvmsgAt c mem buf).2.2.foldl Store.run mem) buf
    let said := (nuCanfdRecvmsg c (.readFrom mem buf) boxno).2.2
    got.len = said.len ∧ got.data = said.data := by
  rw [nuCanfdRecvmsgAt_pending pending, nuCanfdRecvmsg, canfdTransferRf0, if_pos pending]
  refine ⟨recvmsgStores_len _ _ _, ?_⟩
  funext k
  simp only [recvmsgStores_data, decoded_length]
  rfl

def canfdLongPending : Canfd :=
  { canfdIdle with ram := write32 (fun _ => 0) (canfdIdle.part.f0sa + 4) 0x90000, fillLevel := 1 }

theorem recvmsg_overruns : ¬RecvmsgSafe false canfdLongPending := by
  rw [recvmsgSafe_iff_decoded]
  decide

end NuMakerMA35
