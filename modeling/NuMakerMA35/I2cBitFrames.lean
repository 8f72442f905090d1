import NuMakerMA35.I2cBitBus

namespace NuMakerMA35

open I2cTurn

def byteSyms (data : BitVec 8) (ack : Bool) : List I2cSym := (msbFirst data).map .bit ++ [.bit !ack]

/-- An address that was acknowledged, behind tries that were not: each of those ends with a STOP and a new
START. -/
def Called (retries : Nat) (addr : BitVec 8) (syms : List I2cSym) : Prop :=
  ∃ refused ≤ retries, syms =
    (List.replicate refused (byteSyms addr false ++ [.stop, .start])).flatten ++ byteSyms addr true

def Addressed (retries : Nat) (msg : I2cMsg) (syms : List I2cSym) : Prop :=
  if msg.tenBit then
    let addr1 := (0xf0 : BitVec 8) ||| ((msg.addr >>> 7).setWidth 8 &&& 0x06)
    ∃ called, Called retries addr1 called ∧
      if msg.read then ∃ again, Called retries (addr1 ||| 0x01) again ∧
        syms = called ++ byteSyms (msg.addr.setWidth 8) true ++ .start :: again
      else syms = called ++ byteSyms (msg.addr.setWidth 8) true
  else Called retries (if msg.read then (msg.addr <<< 1).setWidth 8 ||| 1 else (msg.addr <<< 1).setWidth 8) syms

/-- The bytes from number `i` on: the last one that is read is not acknowledged. -/
def dataSyms (msg : I2cMsg) (count i : Nat) : List I2cSym :=
  (List.range' i count).flatMap fun k => byteSyms (msg.buf k) (!msg.read || decide (k + 1 < msg.len.toNat))

/-- What a transfer that succeeds has on the bus, for the messages as they are behind it. -/
def Carried (retries : Nat) : List I2cMsg → List I2cSym → Prop
  | [], syms => syms = []
  | msg :: msgs, syms => ∃ addr rest, Addressed retries msg addr ∧ Carried retries msgs rest ∧
      syms = .start :: addr ++ (dataSyms msg msg.len.toNat 0 ++ rest)

theorem eight_bits {bits : List Bool} (eight : bits.length = 8) :
    ∃ a b c d e f g h, bits = [a, b, c, d, e, f, g, h] := by
  match bits, eight with
  | [a, b, c, d, e, f, g, h], _ => exact ⟨a, b, c, d, e, f, g, h, rfl⟩

theorem msbFirst_ofMsbFirst {bits : List Bool} (eight : bits.length = 8) : msbFirst (ofMsbFirst bits) = bits := by
  obtain ⟨a, b, c, d, e, f, g, h, rfl⟩ := eight_bits eight
  have all : ∀ a b c d e f g h : Bool, msbFirst (ofMsbFirst [a, b, c, d, e, f, g, h]) = [a, b, c, d, e, f, g, h] := by
    decide
  exact all a b c d e f g h

theorem read_turn {bits : List Bool} (eight : bits.length = 8) :
    (bits.map I2cSym.bit).foldl next (.read 0) = .readAck := by
  obtain ⟨a, b, c, d, e, f, g, h, rfl⟩ := eight_bits eight
  rfl

namespace I2cProto

variable {slave : I2cSlave} {timeout : Nat} {q : I2cProto}

theorem writeb_cases (q : I2cProto) (data : BitVec 8) :
    (q.writeb slave timeout data = (1, ⟨q.hist ++ byteSyms data true, false⟩) ∧ slave.inTime timeout q.hist = true) ∨
      q.writeb slave timeout data = (0, ⟨q.hist ++ byteSyms data false, false⟩) ∨
      (q.writeb slave timeout data).1 = rtErrTimeout ∧ (q.writeb slave timeout data).2.idle = false ∧
        slave.inTime timeout (q.writeb slave timeout data).2.hist = false := by
  unfold writeb
  dsimp only
  by_cases sent : (sendBits slave timeout (msbFirst data) q.hist).1 = true
  · have whole := sendBits_sent sent
    have began : slave.inTime timeout q.hist = true := sendBits_up sent
    by_cases up : slave.inTime timeout (sendBits slave timeout (msbFirst data) q.hist).2 = true
    · rw [if_pos ⟨sent, up⟩, whole, byteSyms, byteSyms, ← List.append_assoc, ← List.append_assoc]
      cases slave.pull (q.hist ++ (msbFirst data).map .bit) with
      | true => exact .inl ⟨rfl, began⟩
      | false => exact .inr (.inl rfl)
    · rw [if_neg fun both => up both.2]
      exact .inr (.inr ⟨rfl, rfl, Bool.eq_false_of_not_eq_true up⟩)
  · rw [if_neg fun both => sent both.1]
    exact .inr (.inr ⟨rfl, rfl, sendBits_stuck (Bool.eq_false_of_not_eq_true sent)⟩)

theorem writeb_stuck (late : slave.inTime timeout q.hist = false) (data : BitVec 8) :
    q.writeb slave timeout data = (rtErrTimeout, ⟨q.hist, false⟩) := by
  have none : sendBits slave timeout (msbFirst data) q.hist = (false, q.hist) := by
    obtain ⟨b, bits, cut⟩ : ∃ b bits, msbFirst data = b :: bits := ⟨_, _, rfl⟩
    rw [cut, sendBits, if_neg (by simp [late])]
  simp only [writeb, none, Bool.false_eq_true, false_and, if_false]

end I2cProto

namespace I2cOps

open I2cProto

variable {slave : I2cSlave} {timeout retries : Nat} {q : I2cProto} {msg : I2cMsg} {addr : BitVec 8}

theorem sendAddress_stuck (late : slave.inTime timeout q.hist = false) (addr : BitVec 8) (retries : Nat) :
    (I2cProto.ops slave timeout).sendAddress addr retries q = (rtErrTimeout, ⟨q.hist, false⟩) := by
  induction retries generalizing q with
  | zero => exact writeb_stuck late addr
  | succ retries ih =>
    have first : (I2cProto.ops slave timeout).writeb addr q = (rtErrTimeout, ⟨q.hist, false⟩) := writeb_stuck late addr
    have stopped : (I2cProto.ops slave timeout).stop ⟨q.hist, false⟩ = ⟨q.hist, false⟩ := if_neg (by simp [late])
    have failed : ¬rtErrTimeout = 1 := by decide
    rw [sendAddress, first, if_neg failed, stopped]
    exact ih late

theorem sendAddress_called (acked : ((I2cProto.ops slave timeout).sendAddress addr retries q).1 = 1) :
    ∃ syms, Called retries addr syms ∧
      ((I2cProto.ops slave timeout).sendAddress addr retries q).2 = ⟨q.hist ++ syms, false⟩ := by
  have failed : rtErrTimeout ≠ 1 := by decide
  have writes : (I2cProto.ops slave timeout).writeb addr q = q.writeb slave timeout addr := rfl
  induction retries generalizing q with
  | zero =>
    rw [sendAddress, writes] at acked ⊢
    rcases writeb_cases q addr with ⟨ack, -⟩ | nack | ⟨late, -⟩
    · exact ⟨byteSyms addr true, ⟨0, le_refl 0, rfl⟩, congrArg Prod.snd ack⟩
    · rw [nack] at acked
      exact absurd acked Int.zero_ne_one
    · exact absurd (late.symm.trans acked) failed
  | succ retries ih =>
    rw [sendAddress, writes] at acked ⊢
    rcases writeb_cases q addr with ⟨ack, -⟩ | nack | ⟨late, held, stuck⟩
    · rw [ack]
      exact ⟨byteSyms addr true, ⟨0, Nat.zero_le _, rfl⟩, rfl⟩
    · rw [nack] at acked ⊢
      rw [if_neg Int.zero_ne_one] at acked ⊢
      by_cases up : slave.inTime timeout (q.hist ++ byteSyms addr false) = true
      · have stopped : (I2cProto.ops slave timeout).start ((I2cProto.ops slave timeout).stop
            ⟨q.hist ++ byteSyms addr false, false⟩) = ⟨q.hist ++ (byteSyms addr false ++ [.stop, .start]), false⟩ := by
          change (I2cProto.stop slave timeout ⟨q.hist ++ byteSyms addr false, false⟩).start = _
          rw [I2cProto.stop, if_pos up, I2cProto.start]
          simp
        rw [stopped] at acked ⊢
        obtain ⟨syms, ⟨refused, few, whole⟩, behind⟩ := ih acked rfl
        refine ⟨(byteSyms addr false ++ [.stop, .start]) ++ syms, ⟨refused + 1, Nat.succ_le_succ few, ?_⟩, ?_⟩
        · rw [whole, List.replicate_succ, List.flatten_cons]
          simp only [List.append_assoc]
        · rw [behind, List.append_assoc]
      · have stopped : (I2cProto.ops slave timeout).start ((I2cProto.ops slave timeout).stop
            ⟨q.hist ++ byteSyms addr false, false⟩) = ⟨q.hist ++ byteSyms addr false, false⟩ := by
          change (I2cProto.stop slave timeout ⟨q.hist ++ byteSyms addr false, false⟩).start = _
          rw [I2cProto.stop, if_neg up]
          rfl
        rw [stopped, sendAddress_stuck (Bool.eq_false_of_not_eq_true up)] at acked
        exact absurd acked failed
    · have stopped : (I2cProto.ops slave timeout).start ((I2cProto.ops slave timeout).stop
          (q.writeb slave timeout addr).2) = ⟨(q.writeb slave timeout addr).2.hist, false⟩ := by
        change (I2cProto.stop slave timeout (q.writeb slave timeout addr).2).start = _
        rw [I2cProto.stop, if_neg (by simp [stuck])]
        rfl
      have still := @sendAddress_stuck slave timeout ⟨(q.writeb slave timeout addr).2.hist, false⟩ stuck addr retries
      rw [late, if_neg failed, stopped, still] at acked
      exact absurd acked failed

theorem writeb_acked {data : BitVec 8} (acked : ((I2cProto.ops slave timeout).writeb data q).1 = 1) :
    ((I2cProto.ops slave timeout).writeb data q).2 = ⟨q.hist ++ byteSyms data true, false⟩ := by
  obtain ⟨syms, ⟨refused, few, rfl⟩, behind⟩ := @sendAddress_called slave timeout 0 q data acked
  obtain rfl := Nat.le_zero.mp few
  exact behind

theorem restart_called (acked :
      ((I2cProto.ops slave timeout).sendAddress addr retries ((I2cProto.ops slave timeout).restart q)).1 = 1) :
    ∃ syms, Called retries addr syms ∧
      ((I2cProto.ops slave timeout).sendAddress addr retries ((I2cProto.ops slave timeout).restart q)).2 =
        ⟨q.hist ++ .start :: syms, false⟩ := by
  by_cases up : slave.inTime timeout q.hist = true
  · have again : (I2cProto.ops slave timeout).restart q = ⟨q.hist ++ [.start], false⟩ := by
      change I2cProto.restart slave timeout q = _
      rw [I2cProto.restart, if_pos up]
    rw [again] at acked ⊢
    obtain ⟨syms, called, behind⟩ := sendAddress_called acked
    exact ⟨syms, called, by rw [behind, List.append_assoc, List.singleton_append]⟩
  · have again : (I2cProto.ops slave timeout).restart q = ⟨q.hist, false⟩ := by
      change I2cProto.restart slave timeout q = _
      rw [I2cProto.restart, if_neg up]
    have still := @sendAddress_stuck slave timeout ⟨q.hist, false⟩ (Bool.eq_false_of_not_eq_true up) addr retries
    rw [again, still] at acked
    exact absurd acked (show rtErrTimeout ≠ 1 by decide)

theorem foldl_byteSyms {turn : I2cTurn} (byte : turn.Byte) (data : BitVec 8) (ack : Bool) :
    (byteSyms data ack).foldl next turn = next (turn.behind (data.getLsbD 0)) (.bit !ack) := by
  have bits : msbFirst data = [7, 6, 5, 4, 3, 2, 1].map data.getLsbD ++ [data.getLsbD 0] := rfl
  rw [byteSyms, List.foldl_append, bits, byte.foldl (by rfl)]
  rfl

theorem called_turn {syms : List I2cSym} (called : Called retries addr syms) :
    syms.foldl next (.address 0) = if addr.getLsbD 0 then .read 0 else .write 0 := by
  obtain ⟨refused, -, rfl⟩ := called
  rw [List.foldl_append]
  have again : (List.replicate refused (byteSyms addr false ++ [.stop, .start])).flatten.foldl next (.address 0) =
      .address 0 := by
    induction refused with
    | zero => rfl
    | succ refused ih =>
      rw [List.replicate_succ, List.flatten_cons, List.foldl_append, List.foldl_append]
      exact ih
  rw [again, foldl_byteSyms (.inr (.inl rfl))]
  rfl

theorem addressed_turn {syms : List I2cSym} (addressed : Addressed retries msg syms) :
    syms.foldl next (.address 0) = if msg.read then .read 0 else .write 0 := by
  obtain ⟨low, low'⟩ := address_low msg.addr
  unfold Addressed at addressed
  split_ifs at addressed with ten read read
  · obtain ⟨called, first, again, second, rfl⟩ := addressed
    have high : (((0xf0 : BitVec 8) ||| ((msg.addr >>> 7).setWidth 8 &&& 0x06)) ||| 0x01).getLsbD 0 = true := by
      rw [BitVec.getLsbD_or, low']
      rfl
    rw [List.foldl_append, List.foldl_append, called_turn first, low', if_neg Bool.false_ne_true,
      foldl_byteSyms (.inr (.inr rfl)), List.foldl_cons]
    change again.foldl next (.address 0) = _
    rw [called_turn second, high, read]
  · obtain ⟨called, first, rfl⟩ := addressed
    rw [List.foldl_append, called_turn first, low', if_neg Bool.false_ne_true, foldl_byteSyms (.inr (.inr rfl)),
      if_neg read]
    rfl
  · have high : ((msg.addr <<< 1).setWidth 8 ||| (1 : BitVec 8)).getLsbD 0 = true := by
      rw [BitVec.getLsbD_or, low]
      rfl
    rw [called_turn addressed, high, read]
  · rw [called_turn addressed, low, if_neg read, if_neg Bool.false_ne_true]

theorem bitSendAddress_addressed (strict : msg.ignoreNack = false)
    (done : ((I2cProto.ops slave timeout).bitSendAddress retries msg q).1 = 0) :
    ∃ syms, Addressed retries msg syms ∧
      ((I2cProto.ops slave timeout).bitSendAddress retries msg q).2 = ⟨q.hist ++ syms, false⟩ := by
  have failed : rtErrIo ≠ 0 := by decide
  unfold bitSendAddress at done ⊢
  simp only [strict, Bool.false_eq_true, if_false, and_true] at done ⊢
  unfold Addressed
  by_cases ten : msg.tenBit = true
  · simp only [ten, if_true] at done ⊢
    generalize (0xf0 : BitVec 8) ||| ((msg.addr >>> 7).setWidth 8 &&& 0x06) = addr1 at done ⊢
    split_ifs at done with first second read third
    · exact absurd done failed
    · exact absurd done failed
    · exact absurd done failed
    · obtain ⟨called, firstCalled, behind⟩ := sendAddress_called (not_not.mp first)
      have written := writeb_acked (not_not.mp second)
      obtain ⟨again, secondCalled, last⟩ := restart_called (not_not.mp third)
      refine ⟨called ++ byteSyms (msg.addr.setWidth 8) true ++ .start :: again, ⟨called, firstCalled, ?_⟩, ?_⟩
      · rw [if_pos read]
        exact ⟨again, secondCalled, rfl⟩
      · rw [if_neg first, if_neg second, if_pos read, if_neg third, last, written, behind]
        simp only [List.append_assoc]
    · obtain ⟨called, firstCalled, behind⟩ := sendAddress_called (not_not.mp first)
      have written := writeb_acked (not_not.mp second)
      refine ⟨called ++ byteSyms (msg.addr.setWidth 8) true, ⟨called, firstCalled, ?_⟩, ?_⟩
      · rw [if_neg read]
      · rw [if_neg first, if_neg second, if_neg read, written, behind, List.append_assoc]
  · simp only [ten, if_false, Bool.false_eq_true] at done ⊢
    generalize (if msg.read then (msg.addr <<< 1).setWidth 8 ||| 1 else (msg.addr <<< 1).setWidth 8) = addr1 at done ⊢
    split_ifs at done with refused
    · exact absurd done failed
    · rw [if_neg refused]
      exact sendAddress_called (not_not.mp refused)

theorem bitSendAddress_up (strict : msg.ignoreNack = false)
    (done : ((I2cProto.ops slave timeout).bitSendAddress retries msg q).1 = 0) : slave.inTime timeout q.hist = true := by
  by_contra late
  have stuck := fun addr => sendAddress_stuck (Bool.eq_false_of_not_eq_true late) addr retries
  have failed : rtErrTimeout ≠ 1 := by decide
  have error : rtErrIo ≠ 0 := by decide
  unfold bitSendAddress at done
  simp only [strict, Bool.false_eq_true, if_false, and_true, stuck, if_pos failed, ite_self] at done
  exact error done

theorem sendBytes_carried (strict : msg.ignoreNack = false) (write : msg.read = false) (count i : Nat)
    (held : q.idle = false)
    (sent : ¬((I2cProto.ops slave timeout).sendBytes msg count i q).1 < (i + count : Nat)) :
    ((I2cProto.ops slave timeout).sendBytes msg count i q).2 = ⟨q.hist ++ dataSyms msg count i, false⟩ := by
  induction count generalizing i q with
  | zero =>
    rw [dataSyms, List.range'_zero, List.flatMap_nil, List.append_nil, ← held]
    rfl
  | succ count ih =>
    have acked : ((I2cProto.ops slave timeout).writeb (msg.buf i) q).1 = 1 := by
      rw [sendBytes] at sent
      rcases writeb_cases q (msg.buf i) with ⟨ack, -⟩ | nack | ⟨late, -⟩
      · exact congrArg Prod.fst ack
      · have nack' : (I2cProto.ops slave timeout).writeb (msg.buf i) q = _ := nack
        rw [nack', if_neg (by simp [strict])] at sent
        exact absurd (by simp; omega) sent
      · have late' : ((I2cProto.ops slave timeout).writeb (msg.buf i) q).1 = rtErrTimeout := late
        rw [if_neg (by simp [strict, late', rtErrTimeout])] at sent
        exact absurd (by simp [late', rtErrTimeout]; omega) sent
    have more : ((I2cProto.ops slave timeout).writeb (msg.buf i) q).1 > 0 := by
      rw [acked]
      decide
    rw [sendBytes, if_pos (.inl more), writeb_acked acked] at sent ⊢
    rw [ih (i + 1) rfl (by rwa [Nat.add_right_comm])]
    simp only [dataSyms, List.range'_succ, List.flatMap_cons, write, Bool.not_false, Bool.true_or, List.append_assoc]

theorem recvBytes_carried (polite : slave.Polite) (plain : msg.noReadAck = false) (read : msg.read = true)
    (count i : Nat) (held : q.idle = false) (whole : msg.len.toNat = i + count)
    (turn : count ≠ 0 → of q.hist = .read 0)
    (got : ¬((I2cProto.ops slave timeout).recvBytes count i msg q).1 < (i + count : Nat)) :
    ∃ buf, (∀ k < i, buf k = msg.buf k) ∧ ((I2cProto.ops slave timeout).recvBytes count i msg q).2 =
      ({ msg with buf := buf }, ⟨q.hist ++ dataSyms { msg with buf := buf } count i, false⟩) := by
  induction count generalizing i msg q with
  | zero =>
    refine ⟨msg.buf, fun _ _ => rfl, ?_⟩
    rw [dataSyms, List.range'_zero, List.flatMap_nil, List.append_nil, ← held]
    rfl
  | succ count ih =>
    have short : ∀ r : Int, r ≤ i → r < (i + (count + 1) : Nat) := by
      intro r le
      omega
    have reads : (I2cProto.ops slave timeout).readb q = q.readb slave timeout := rfl
    rw [recvBytes, reads, I2cProto.readb] at got ⊢
    cases bits : (recvBits slave timeout 8 q.hist).1 with
    | none =>
      simp only [bits, Option.elim_none] at got
      rw [if_neg (by decide)] at got
      exact absurd (short i (le_refl _)) got
    | some bits' =>
      obtain ⟨eight, hist⟩ := recvBits_got bits
      have positive : ((ofMsbFirst bits').toNat : Int) ≥ 0 := Int.natCast_nonneg _
      have byte : BitVec.ofInt 8 (ofMsbFirst bits').toNat = ofMsbFirst bits' := by
        rw [BitVec.ofInt_natCast, BitVec.ofNat_toNat, BitVec.setWidth_eq]
      have here : of (q.hist ++ bits'.map .bit) = .readAck := by
        rw [of_append, turn (Nat.succ_ne_zero _), read_turn eight]
      have silent : slave.pull (q.hist ++ bits'.map .bit) = false := by
        by_contra pulls
        have answers := polite.answers _ (Bool.eq_true_of_not_eq_false pulls)
        rw [here] at answers
        exact Bool.false_ne_true answers
      have kept : ({ msg with buf := Function.update msg.buf i (ofMsbFirst bits') } : I2cMsg).noReadAck = false := plain
      simp only [bits, Option.elim_some, hist, byte, kept, if_pos positive, Bool.false_eq_true, if_false] at got ⊢
      by_cases up : slave.inTime timeout (q.hist ++ bits'.map .bit) = true
      · have sent : (I2cProto.ops slave timeout).sendAckOrNack (count ≠ 0) ⟨q.hist ++ bits'.map .bit, false⟩ =
            (0, ⟨q.hist ++ byteSyms (ofMsbFirst bits') (decide (count ≠ 0)), false⟩) := by
          change I2cProto.sendAckOrNack slave timeout _ _ = _
          rw [I2cProto.sendAckOrNack, if_pos up, silent, byteSyms, msbFirst_ofMsbFirst eight, Bool.not_false,
            Bool.and_true, List.append_assoc]
        rw [sent, if_neg (Int.lt_irrefl 0)] at got ⊢
        have behind : count ≠ 0 → of (q.hist ++ byteSyms (ofMsbFirst bits') (decide (count ≠ 0))) = .read 0 := by
          intro some
          rw [byteSyms, msbFirst_ofMsbFirst eight, ← List.append_assoc, of_append, here, decide_eq_true some]
          rfl
        obtain ⟨buf, below, result⟩ := @ih ⟨q.hist ++ byteSyms (ofMsbFirst bits') (decide (count ≠ 0)), false⟩
          { msg with buf := Function.update msg.buf i (ofMsbFirst bits') } plain read (i + 1) rfl
          (by rw [Nat.add_right_comm]; exact whole) behind (by rwa [Nat.add_right_comm])
        refine ⟨buf, ?_, ?_⟩
        · intro k less
          rw [below k (Nat.lt_succ_of_lt less)]
          exact Function.update_of_ne less.ne ..
        · have last : buf i = ofMsbFirst bits' := by
            rw [below i (Nat.lt_succ_self i)]
            exact Function.update_self ..
          have acked : decide (i + 1 < msg.len.toNat) = decide (count ≠ 0) := by
            rw [decide_eq_decide, whole]
            omega
          rw [result]
          have reading : ({ msg with buf := buf } : I2cMsg).read = true := read
          simp only [dataSyms, List.range'_succ, List.flatMap_cons, last, reading, acked, Bool.not_true, Bool.false_or,
            List.append_assoc]
      · have failed : (I2cProto.ops slave timeout).sendAckOrNack (count ≠ 0) ⟨q.hist ++ bits'.map .bit, false⟩ =
            (rtErrTimeout, ⟨q.hist ++ bits'.map .bit, false⟩) := if_neg up
        have negative : rtErrTimeout < 0 := by decide
        rw [failed, if_pos negative] at got
        exact absurd (short rtErrTimeout (by omega)) got

/-- A message as a transfer leaves it: the bytes of one that is read have come. -/
def Left (msg msg' : I2cMsg) : Prop := { msg with buf := msg'.buf } = msg' ∧ (msg.read = false → msg' = msg)

theorem xferBytes_carried (polite : slave.Polite) (proper : Proper msg) (strict : msg.ignoreNack = false)
    (held : q.idle = false) (turn : msg.read = true → of q.hist = .read 0)
    (done : ((I2cProto.ops slave timeout).xferBytes msg q).1 = none) :
    Left msg ((I2cProto.ops slave timeout).xferBytes msg q).2.1 ∧
      ((I2cProto.ops slave timeout).xferBytes msg q).2.2 =
        ⟨q.hist ++ dataSyms ((I2cProto.ops slave timeout).xferBytes msg q).2.1 msg.len.toNat 0, false⟩ := by
  unfold xferBytes at done ⊢
  cases read : msg.read with
  | true =>
    simp only [read, if_true, ite_eq_right_iff, reduceCtorEq, imp_false] at done ⊢
    obtain ⟨buf, -, result⟩ := recvBytes_carried polite (proper read).1 read msg.len.toNat 0 held (Nat.zero_add _).symm
      (fun _ => turn read) (by rwa [Nat.zero_add])
    rw [result]
    exact ⟨⟨rfl, fun write => absurd (write.symm.trans read) Bool.false_ne_true⟩, rfl⟩
  | false =>
    simp only [read, if_false, Bool.false_eq_true, ite_eq_right_iff, reduceCtorEq, imp_false] at done ⊢
    exact ⟨⟨rfl, fun _ => rfl⟩, sendBytes_carried strict read _ 0 held (by rwa [Nat.zero_add])⟩

/-- What is asked of a message, for its bytes to be where they belong. -/
structure Strict (msg : I2cMsg) : Prop where
  proper : Proper msg
  starts : msg.noStart = false
  acked : msg.ignoreNack = false

theorem xferMsg_carried (polite : slave.Polite) (strict : Strict msg) (first : Bool) (free : first = q.idle)
    (done : ((I2cProto.ops slave timeout).xferMsg retries first msg q).1 = none) :
    ∃ msg' addr, Left msg msg' ∧ Addressed retries msg' addr ∧
      (I2cProto.ops slave timeout).xferMsg retries first msg q =
        (none, msg', ⟨q.hist ++ (.start :: addr ++ dataSyms msg' msg'.len.toNat 0), false⟩) := by
  obtain ⟨proper, starts, acked⟩ := strict
  unfold xferMsg at done ⊢
  simp only [starts, acked, Bool.false_eq_true, if_false, and_true] at done ⊢
  obtain ⟨q', hq'⟩ : ∃ q', q' = if first then (I2cProto.ops slave timeout).start q else
    (I2cProto.ops slave timeout).restart q := ⟨_, rfl⟩
  rw [← hq'] at done ⊢
  split_ifs at done with refused
  rw [if_neg refused]
  rw [not_not] at refused
  have started : q' = ⟨q.hist ++ [.start], false⟩ := by
    have up := bitSendAddress_up acked refused
    rw [hq'] at up ⊢
    cases first with
    | true => exact if_pos free.symm
    | false =>
      change I2cProto.restart slave timeout q = _
      change slave.inTime timeout (I2cProto.restart slave timeout q).hist = true at up
      rw [I2cProto.restart] at up ⊢
      split_ifs at up ⊢ with high
      · rfl
      · exact absurd up high
  rw [started] at refused done ⊢
  obtain ⟨addr, addressed, behind⟩ := bitSendAddress_addressed acked refused
  rw [behind] at done ⊢
  have turn : msg.read = true → of (q.hist ++ [.start] ++ addr) = .read 0 := by
    intro read
    rw [of_append, of_append]
    exact (addressed_turn addressed).trans (if_pos read)
  obtain ⟨left, bytes⟩ := xferBytes_carried polite proper acked rfl turn done
  refine ⟨_, addr, left, left.1 ▸ addressed, Prod.ext done (Prod.ext rfl (bytes.trans ?_))⟩
  have len := congrArg (fun m => m.len.toNat) left.1
  dsimp only at len ⊢
  rw [← len]
  simp only [List.append_assoc, List.cons_append, List.nil_append]

section Errors

variable {σ : Type} {ops : I2cOps σ} {st : σ} {err : Int}

theorem xferBytes_error (failed : (ops.xferBytes msg st).1 = some err) : err < 0 := by
  have negative : ∀ r e : Int, e < 0 → (if r ≥ 0 then e else r) < 0 := by
    intro r e he
    split_ifs <;> omega
  unfold xferBytes at failed
  dsimp only at failed
  by_cases read : msg.read = true
  · simp only [read, if_true, Option.ite_none_right_eq_some, Option.some.injEq] at failed
    exact failed.2 ▸ negative _ rtErrIo (by decide)
  · simp only [read, if_false, Bool.false_eq_true, Option.ite_none_right_eq_some, Option.some.injEq] at failed
    exact failed.2 ▸ negative _ rtErrGeneric (by decide)

theorem bitSendAddress_error : (ops.bitSendAddress retries msg st).1 ≤ 0 := by
  have io : rtErrIo ≤ 0 := by decide
  unfold bitSendAddress
  dsimp only
  split_ifs <;> first | exact io | exact le_refl 0

theorem xferMsg_error {first : Bool} (failed : (ops.xferMsg retries first msg st).1 = some err) : err < 0 := by
  unfold xferMsg at failed
  by_cases continued : msg.noStart = true
  · rw [if_pos continued] at failed
    exact xferBytes_error failed
  · rw [if_neg continued] at failed
    dsimp only at failed
    generalize (if first then ops.start st else ops.restart st) = st' at failed
    by_cases refused : (ops.bitSendAddress retries msg st').1 ≠ 0 ∧ msg.ignoreNack = false
    · rw [if_pos refused] at failed
      exact Option.some.inj failed ▸ lt_of_le_of_ne bitSendAddress_error refused.1
    · rw [if_neg refused] at failed
      exact xferBytes_error failed

theorem xferMsgs_none {num : Nat} {first : Bool} {rest : List I2cMsg}
    (done : (ops.xferMsgs retries num first msg rest st).ret = num) :
    (ops.xferMsg retries first msg st).1 = none := by
  cases err : (ops.xferMsg retries first msg st).1 with
  | none => rfl
  | some e =>
    have negative := xferMsg_error err
    have same : e = num := by
      cases rest with
      | nil => simpa [xferMsgs, err] using done
      | cons next rest => simpa [xferMsgs, err] using done
    omega

end Errors

/-- How a transfer ends: with a STOP, if it is asked for and the clock rises. -/
def ended (slave : I2cSlave) (timeout : Nat) (noStop : Bool) (hist : List I2cSym) : List I2cSym :=
  if noStop = false ∧ slave.inTime timeout hist = true then hist ++ [.stop] else hist

theorem xferMsgs_carried (polite : slave.Polite) (strict : Strict msg) {rest : List I2cMsg}
    (others : ∀ m ∈ rest, Strict m) (num : Nat) (first : Bool) (free : first = q.idle)
    (done : ((I2cProto.ops slave timeout).xferMsgs retries num first msg rest q).ret = num) :
    List.Forall₂ Left (msg :: rest) ((I2cProto.ops slave timeout).xferMsgs retries num first msg rest q).msgs ∧
      ∃ syms, Carried retries ((I2cProto.ops slave timeout).xferMsgs retries num first msg rest q).msgs syms ∧
        ((I2cProto.ops slave timeout).xferMsgs retries num first msg rest q).bus.hist =
          ended slave timeout ((msg :: rest).getLast (List.cons_ne_nil msg rest)).noStop (q.hist ++ syms) := by
  induction rest generalizing msg first q with
  | nil =>
    obtain ⟨msg', addr, left, addressed, behind⟩ := xferMsg_carried polite strict first free (xferMsgs_none done)
    rw [xferMsgs, behind]
    refine ⟨.cons left .nil, _, ⟨addr, [], addressed, rfl, rfl⟩, ?_⟩
    rw [List.append_nil]
    cases stop : msg.noStop with
    | true => simp [ended, stop]
    | false =>
      simp only [ended, stop, List.getLast_singleton, Bool.false_eq_true, if_false, true_and]
      change (I2cProto.stop slave timeout _).hist = _
      rw [I2cProto.stop]
      split_ifs <;> rfl
  | cons next rest ih =>
    obtain ⟨msg', addr, left, addressed, behind⟩ := xferMsg_carried polite strict first free (xferMsgs_none done)
    rw [xferMsgs, behind] at done ⊢
    obtain ⟨lefts, syms, carried, hist⟩ := ih (others next (List.mem_cons_self ..))
      (fun m mem => others m (List.mem_cons_of_mem _ mem)) false rfl done
    refine ⟨.cons left lefts, _, ⟨addr, syms, addressed, carried, rfl⟩, hist.trans ?_⟩
    rw [List.getLast_cons (List.cons_ne_nil next rest)]
    simp only [List.append_assoc, List.cons_append]

end I2cOps

end NuMakerMA35
