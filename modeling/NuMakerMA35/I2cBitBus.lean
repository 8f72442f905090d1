import NuMakerMA35.I2cBitOps

namespace NuMakerMA35

/-- Whose turn it is to drive the data line, and for which bit. -/
inductive I2cTurn where
  | idle
  | address (n : Nat)
  | addressAck (rd : Bool)
  | write (n : Nat)
  | writeAck
  | read (n : Nat)
  | readAck
  deriving DecidableEq

namespace I2cTurn

def next : I2cTurn → I2cSym → I2cTurn
  | _, .start => .address 0
  | _, .stop => .idle
  | .idle, .bit _ => .idle
  | .address n, .bit b => if n < 7 then .address (n + 1) else .addressAck b
  | .addressAck rd, .bit b => if b then .idle else if rd then .read 0 else .write 0
  | .write n, .bit _ => if n < 7 then .write (n + 1) else .writeAck
  | .writeAck, .bit b => if b then .idle else .write 0
  | .read n, .bit _ => if n < 7 then .read (n + 1) else .readAck
  | .readAck, .bit b => if b then .idle else .read 0

def slaves : I2cTurn → Bool
  | .addressAck _ | .writeAck | .read _ => true
  | _ => false

def of (hist : List I2cSym) : I2cTurn := hist.foldl next .idle

theorem of_append (hist rest : List I2cSym) : of (hist ++ rest) = rest.foldl next (of hist) :=
  List.foldl_append ..

end I2cTurn

/-- A slave pulls the data line only where it has to answer, and keeps down a clock that `SCL_H` has given up
until the master works it again. -/
structure I2cSlave.Polite (slave : I2cSlave) : Prop where
  answers : ∀ hist, slave.pull hist = true → (I2cTurn.of hist).slaves = true
  keeps : ∀ hist drive, slave.late hist drive = false

def msbFirst (data : BitVec 8) : List Bool := (List.range 8).reverse.map data.getLsbD

def ofMsbFirst (bits : List Bool) : BitVec 8 := bits.foldl (fun d b => if b then d <<< 1 ||| 1 else d <<< 1) 0

/-- The bus as the protocol has it: its symbols, and whether it is free. -/
structure I2cProto where
  hist : List I2cSym
  idle : Bool

namespace I2cProto

variable (slave : I2cSlave) (timeout : Nat) (q : I2cProto)

def start : I2cProto := if q.idle then ⟨q.hist ++ [.start], false⟩ else q

def restart : I2cProto := ⟨if slave.inTime timeout q.hist then q.hist ++ [.start] else q.hist, false⟩

def stop : I2cProto :=
  if slave.inTime timeout q.hist then ⟨q.hist ++ [.stop], true⟩ else ⟨q.hist, false⟩

/-- Bits from the master, until the clock is not in time. -/
def sendBits : List Bool → List I2cSym → Bool × List I2cSym
  | [], hist => (true, hist)
  | b :: bits, hist =>
    if slave.inTime timeout hist then sendBits bits (hist ++ [.bit b]) else (false, hist)

def recvBits : Nat → List I2cSym → Option (List Bool) × List I2cSym
  | 0, hist => (some [], hist)
  | n + 1, hist =>
    if slave.inTime timeout hist then
      let rest := recvBits n (hist ++ [.bit (!slave.pull hist)])
      (rest.1.map ((!slave.pull hist) :: ·), rest.2)
    else (none, hist)

def writeb (data : BitVec 8) : Int × I2cProto :=
  let sent := sendBits slave timeout (msbFirst data) q.hist
  if sent.1 ∧ slave.inTime timeout sent.2 then
    (if slave.pull sent.2 then 1 else 0, ⟨sent.2 ++ [.bit (!slave.pull sent.2)], false⟩)
  else (rtErrTimeout, ⟨sent.2, false⟩)

def readb : Int × I2cProto :=
  let got := recvBits slave timeout 8 q.hist
  (got.1.elim rtErrTimeout fun bits => (ofMsbFirst bits).toNat, ⟨got.2, false⟩)

def sendAckOrNack (ack : Bool) : Int × I2cProto :=
  if slave.inTime timeout q.hist then
    (0, ⟨q.hist ++ [.bit (!ack && !slave.pull q.hist)], false⟩)
  else (rtErrTimeout, ⟨q.hist, false⟩)

def ops (slave : I2cSlave) (timeout : Nat) : I2cOps I2cProto where
  start := start
  restart := restart slave timeout
  stop := stop slave timeout
  writeb data q := q.writeb slave timeout data
  readb := readb slave timeout
  sendAckOrNack ack q := q.sendAckOrNack slave timeout ack

end I2cProto

/-- The pins show the bus: both lines are high on a free one, and else the master holds the clock. -/
structure I2cPins.Shows (p : I2cPins) (q : I2cProto) : Prop where
  hist : p.hist = q.hist
  free : q.idle = true → p.scl = true ∧ p.drive = true ∧ p.clean = false
  held : q.idle = false → p.scl = false

namespace I2cPins

variable {slave : I2cSlave} {timeout : Nat} {p : I2cPins} {q : I2cProto}

theorem rise_polite (polite : slave.Polite) : p.rise slave = p := by
  rw [rise, if_neg (by simp [polite.keeps])]

theorem setSda_low (polite : slave.Polite) (low : p.scl = false) (value : Bool) :
    p.setSda slave value = { p with drive := value } := by
  rw [setSda, if_neg (by simp [low]), rise_polite polite]

theorem sclL_low (low : p.scl = false) : p.sclL slave = { p with released := false } := by
  rw [sclL, if_neg (by simp [low]), ← low]

theorem sclH_low (polite : slave.Polite) (low : p.scl = false) : p.sclH slave timeout =
    if slave.inTime timeout p.hist then (true, { p with scl := true, clean := true, released := false })
    else (false, { p with released := true }) := by
  rw [sclH, low, rise_polite polite]
  rfl

theorem setSda_sclH (polite : slave.Polite) {hist : List I2cSym} (low : p.scl = false) (shown : p.hist = hist)
    (value : Bool) : (p.setSda slave value).sclH slave timeout =
      if slave.inTime timeout hist then (true, ⟨true, value, true, hist, false⟩)
      else (false, ⟨false, value, p.clean, hist, true⟩) := by
  obtain ⟨scl, drive, clean, h, released⟩ := p
  obtain rfl : scl = false := low
  obtain rfl : h = hist := shown
  rw [setSda_low polite rfl, sclH_low polite rfl]

theorem sclL_high (drive : Bool) (hist : List I2cSym) : (⟨true, drive, true, hist, false⟩ : I2cPins).sclL slave =
    ⟨false, drive, true, hist ++ [.bit (drive && !slave.pull hist)], false⟩ := rfl

theorem sclL_scl (p : I2cPins) : (p.sclL slave).scl = false := by
  rw [sclL]
  split_ifs <;> rfl

theorem bit_eq (data : BitVec 8) (i : Nat) : decide ((data >>> i &&& 1) ≠ 0) = data.getLsbD i := by
  have one : data >>> i &&& 1 = (BitVec.ofBool (data.getLsbD i)).setWidth 8 := by
    rw [BitVec.ofNat_eq_ofNat, BitVec.and_one_eq_setWidth_ofBool_getLsbD, BitVec.getLsbD_ushiftRight, Nat.add_zero]
  rw [one]
  cases data.getLsbD i <;> decide

def bitsBelow (data : BitVec 8) (n : Nat) : List Bool := (List.range n).reverse.map data.getLsbD

theorem bitsBelow_succ (data : BitVec 8) (n : Nat) :
    bitsBelow data (n + 1) = data.getLsbD n :: bitsBelow data n := by
  rw [bitsBelow, List.range_succ, List.reverse_append, List.reverse_singleton, List.singleton_append, List.map_cons,
    bitsBelow]

theorem writeBits_eq (polite : slave.Polite) (data : BitVec 8) {n : Nat} {hist : List I2cSym} (shown : (p.sclL slave).hist = hist)
    (quiet : slave.inTime timeout hist = true →
      ∀ k < n, slave.pull (hist ++ ((bitsBelow data n).take k).map .bit) = false) :
    (p.writeBits slave timeout data n).1 = (I2cProto.sendBits slave timeout (bitsBelow data n) hist).1 ∧
      ((p.writeBits slave timeout data n).2.sclL slave).hist =
        (I2cProto.sendBits slave timeout (bitsBelow data n) hist).2 ∧
      ((p.writeBits slave timeout data n).1 = false → (p.writeBits slave timeout data n).2.scl = false) := by
  induction n generalizing p hist with
  | zero => exact ⟨rfl, shown, fun failed => absurd failed (by simp [writeBits])⟩
  | succ n ih =>
    have low : (p.sclL slave).scl = false := sclL_scl p
    simp only [writeBits, bit_eq, bitsBelow_succ, I2cProto.sendBits, setSda_sclH polite low shown]
    by_cases up : slave.inTime timeout hist = true
    · have silent : slave.pull hist = false := by simpa using quiet up 0 (Nat.succ_pos n)
      simp only [up, if_true]
      apply ih
      · rw [sclL_high, silent]
        simp
      · intro _ k below
        have later := quiet up (k + 1) (Nat.succ_lt_succ below)
        rw [bitsBelow_succ, List.take_succ_cons, List.map_cons] at later
        rw [List.append_assoc, List.singleton_append]
        exact later
    · simp only [up, if_false, Bool.false_eq_true]
      exact ⟨trivial, by rw [sclL_low rfl], fun _ => trivial⟩

theorem readBits_eq (polite : slave.Polite) {n : Nat} {hist : List I2cSym} (low : p.scl = false)
    (high : p.drive = true) (shown : p.hist = hist) (data : BitVec 8) :
    (p.readBits slave timeout n data).1 = ((I2cProto.recvBits slave timeout n hist).1.elim rtErrTimeout
        fun bits => ((bits.foldl (fun d b => if b then d <<< 1 ||| 1 else d <<< 1) data).toNat : Int)) ∧
      (p.readBits slave timeout n data).2.hist = (I2cProto.recvBits slave timeout n hist).2 ∧
      (p.readBits slave timeout n data).2.scl = false ∧ (p.readBits slave timeout n data).2.drive = true := by
  induction n generalizing p hist data with
  | zero => exact ⟨rfl, shown, low, high⟩
  | succ n ih =>
    obtain ⟨scl, drive, clean, h, released⟩ := p
    obtain rfl : scl = false := low
    obtain rfl : drive = true := high
    obtain rfl : h = hist := shown
    simp only [readBits, I2cProto.recvBits, sclH_low polite]
    by_cases up : slave.inTime timeout h = true
    · simp only [up, if_true, sclL_high, Bool.true_and, getSda]
      obtain ⟨value, shown, down⟩ := @ih ⟨false, true, true, h ++ [.bit (!slave.pull h)], false⟩ _ rfl rfl rfl
        (if !slave.pull h then data <<< 1 ||| 1 else data <<< 1)
      refine ⟨value.trans ?_, shown, down⟩
      cases (I2cProto.recvBits slave timeout n (h ++ [.bit (!slave.pull h)])).1 <;> rfl
    · simp only [up, if_false, Bool.false_eq_true]
      exact ⟨rfl, trivial, trivial, trivial⟩

end I2cPins

namespace I2cTurn

variable {turn : I2cTurn}

def Byte (turn : I2cTurn) : Prop := turn = .idle ∨ turn = .address 0 ∨ turn = .write 0

theorem foldl_count {at' : Nat → I2cTurn} (count : ∀ n < 7, ∀ b, next (at' n) (.bit b) = at' (n + 1)) {n : Nat}
    (bits : List Bool) (few : n + bits.length ≤ 7) :
    (bits.map I2cSym.bit).foldl next (at' n) = at' (n + bits.length) := by
  induction bits generalizing n with
  | nil => rfl
  | cons b bits ih =>
    rw [List.length_cons] at few
    rw [List.map_cons, List.foldl_cons, count n (by omega), ih (by omega), List.length_cons, Nat.add_assoc,
      Nat.add_comm 1]

theorem next_address (n : Nat) (below : n < 7) (b : Bool) : next (.address n) (.bit b) = .address (n + 1) :=
  if_pos below

theorem next_write (n : Nat) (below : n < 7) (b : Bool) : next (.write n) (.bit b) = .write (n + 1) :=
  if_pos below

theorem next_read (n : Nat) (below : n < 7) (b : Bool) : next (.read n) (.bit b) = .read (n + 1) :=
  if_pos below

theorem foldl_idle (bits : List Bool) : (bits.map I2cSym.bit).foldl next .idle = .idle := by
  induction bits with
  | nil => rfl
  | cons b bits ih => exact ih

theorem Byte.slaves (byte : turn.Byte) {bits : List Bool} (few : bits.length ≤ 7) :
    ((bits.map I2cSym.bit).foldl next turn).slaves = false := by
  rcases byte with rfl | rfl | rfl
  · rw [foldl_idle]
    rfl
  · rw [foldl_count next_address bits (by omega)]
    rfl
  · rw [foldl_count next_write bits (by omega)]
    rfl

def behind (last : Bool) : I2cTurn → I2cTurn
  | .address _ => .addressAck last
  | .write _ => .writeAck
  | _ => .idle

theorem Byte.foldl (byte : turn.Byte) {bits : List Bool} (seven : bits.length = 7) (last : Bool) :
    ((bits ++ [last]).map I2cSym.bit).foldl next turn = turn.behind last := by
  rw [List.map_append, List.foldl_append]
  rcases byte with rfl | rfl | rfl
  · rw [foldl_idle]
    rfl
  · rw [foldl_count next_address bits (by omega), seven]
    rfl
  · rw [foldl_count next_write bits (by omega), seven]
    rfl

def Rest (turn : I2cTurn) : Prop := turn = .idle ∨ turn = .write 0

theorem Rest.byte (rest : turn.Rest) : turn.Byte := rest.imp id .inr

theorem Rest.slaves (rest : turn.Rest) : turn.slaves = false := by
  rcases rest with rfl | rfl <;> rfl

end I2cTurn

namespace I2cProto

variable {slave : I2cSlave} {timeout : Nat} {hist : List I2cSym} {p : I2cPins} {q : I2cProto}

theorem sendBits_sent {bits : List Bool} (sent : (sendBits slave timeout bits hist).1 = true) :
    (sendBits slave timeout bits hist).2 = hist ++ bits.map .bit := by
  induction bits generalizing hist with
  | nil => exact (List.append_nil _).symm
  | cons b bits ih =>
    rw [sendBits] at sent ⊢
    split_ifs at sent ⊢
    rw [ih sent, List.map_cons, List.append_assoc, List.singleton_append]

theorem sendBits_stuck {bits : List Bool} (late : (sendBits slave timeout bits hist).1 = false) :
    slave.inTime timeout (sendBits slave timeout bits hist).2 = false := by
  induction bits generalizing hist with
  | nil => exact absurd late (by simp [sendBits])
  | cons b bits ih =>
    rw [sendBits] at late ⊢
    split_ifs at late ⊢ with up
    · exact ih late
    · exact Bool.eq_false_of_not_eq_true up

theorem sendBits_up {b : Bool} {bits : List Bool} (sent : (sendBits slave timeout (b :: bits) hist).1 = true) :
    slave.inTime timeout hist = true := by
  rw [sendBits] at sent
  split_ifs at sent with up
  exact up

theorem recvBits_got {n : Nat} {bits : List Bool} (got : (recvBits slave timeout n hist).1 = some bits) :
    bits.length = n ∧ (recvBits slave timeout n hist).2 = hist ++ bits.map .bit := by
  induction n generalizing hist bits with
  | zero =>
    obtain rfl := Option.some.inj got
    exact ⟨rfl, (List.append_nil _).symm⟩
  | succ n ih =>
    rw [recvBits] at got ⊢
    split_ifs at got ⊢
    obtain ⟨rest, more, rfl⟩ := Option.map_eq_some_iff.mp got
    obtain ⟨length, all⟩ := ih more
    refine ⟨by rw [List.length_cons, length], ?_⟩
    dsimp only
    rw [all, List.map_cons, List.append_assoc, List.singleton_append]

theorem recvBits_stuck {n : Nat} (late : (recvBits slave timeout n hist).1 = none) :
    slave.inTime timeout (recvBits slave timeout n hist).2 = false := by
  induction n generalizing hist with
  | zero => exact absurd late (by simp [recvBits])
  | succ n ih =>
    rw [recvBits] at late ⊢
    split_ifs at late ⊢ with up
    · exact ih (Option.map_eq_none_iff.mp late)
    · exact Bool.eq_false_of_not_eq_true up

/-- The master holds the clock at one of these turns, or the clock will not be in time. -/
structure At (slave : I2cSlave) (timeout : Nat) (turns : I2cTurn → Prop) (q : I2cProto) : Prop where
  held : q.idle = false
  turn : slave.inTime timeout q.hist = true → turns (.of q.hist)

theorem At.mono {turns turns' : I2cTurn → Prop} (here : At slave timeout turns q)
    (weaker : ∀ turn, turns turn → turns' turn) : At slave timeout turns' q :=
  ⟨here.held, fun up => weaker _ (here.turn up)⟩

structure Ready (slave : I2cSlave) (timeout : Nat) (q : I2cProto) : Prop where
  free : q.idle = true → I2cTurn.of q.hist = .idle
  held : q.idle = false → At slave timeout I2cTurn.Rest q

theorem At.silent {turns : I2cTurn → Prop} (here : At slave timeout turns q) (polite : slave.Polite)
    (ours : ∀ turn, turns turn → turn.slaves = false) (up : slave.inTime timeout q.hist = true) :
    slave.pull q.hist = false := by
  by_contra pulls
  have answers := polite.answers q.hist (Bool.eq_true_of_not_eq_false pulls)
  rw [ours _ (here.turn up)] at answers
  exact Bool.false_ne_true answers

end I2cProto

/-- A run on the pins and one by the protocol give the same, and the pins show the bus. -/
structure Agrees (slave : I2cSlave) (timeout : Nat) {α : Type} (turns : α → I2cTurn → Prop)
    (r : α × I2cPins) (r' : α × I2cProto) : Prop where
  same : r.1 = r'.1
  shows : r.2.Shows r'.2
  turn : r'.2.At slave timeout (turns r'.1)

namespace I2cPins

open I2cProto I2cTurn

variable {slave : I2cSlave} {timeout : Nat} {p : I2cPins} {q : I2cProto}

theorem Shows.low (shows : p.Shows q) (held : q.idle = false) : ∃ drive clean released,
    p = ⟨false, drive, clean, q.hist, released⟩ :=
  ⟨p.drive, p.clean, p.released, by rw [← shows.hist, ← shows.held held]⟩

theorem shows_low {drive clean released : Bool} {hist : List I2cSym} :
    (⟨false, drive, clean, hist, released⟩ : I2cPins).Shows ⟨hist, false⟩ :=
  ⟨rfl, fun free => absurd free Bool.false_ne_true, fun _ => rfl⟩

theorem start_free (shows : p.Shows q) (free : q.idle = true) (silent : slave.pull q.hist = false) :
    (p.start slave).Shows q.start ∧ q.start = ⟨q.hist ++ [.start], false⟩ := by
  obtain ⟨high, drive, clean⟩ := shows.free free
  obtain ⟨scl, sda, fresh, hist, released⟩ := p
  obtain rfl : scl = true := high
  obtain rfl : sda = true := drive
  obtain rfl : fresh = false := clean
  obtain rfl : hist = q.hist := shows.hist
  have proto : q.start = ⟨q.hist ++ [.start], false⟩ := if_pos free
  rw [proto]
  simp only [start, setSda, getSda, silent, sclL]
  exact ⟨shows_low, trivial⟩

theorem start_held (polite : slave.Polite) (shows : p.Shows q) (held : q.idle = false) : (p.start slave).Shows q.start ∧ q.start = q := by
  obtain ⟨drive, clean, released, rfl⟩ := shows.low held
  have proto : q.start = q := if_neg (by simp [held])
  rw [proto, start, setSda_low polite rfl, sclL_low rfl]
  exact ⟨⟨rfl, fun free => absurd free (by simp [held]), fun _ => rfl⟩, rfl⟩

theorem restart_shows (polite : slave.Polite) (shows : p.Shows q) (here : At slave timeout Rest q) :
    (p.restart slave timeout).Shows (q.restart slave timeout) ∧
      At slave timeout Byte (q.restart slave timeout) := by
  obtain ⟨drive, clean, released, rfl⟩ := shows.low here.held
  rw [restart, setSda_sclH polite rfl rfl, I2cProto.restart]
  by_cases up : slave.inTime timeout q.hist = true
  · have silent := here.silent polite (fun _ rest => rest.slaves) up
    simp only [up, if_true, setSda, getSda, silent, sclL]
    exact ⟨shows_low, rfl, fun _ => .inr (.inl (by rw [of_append]; rfl))⟩
  · simp only [up, if_false, Bool.false_eq_true, setSda_low polite, sclL_low]
    exact ⟨shows_low, rfl, fun up' => absurd up' up⟩

theorem start_shows (polite : slave.Polite) (shows : p.Shows q) (ready : Ready slave timeout q) :
    (p.start slave).Shows q.start ∧ At slave timeout Byte q.start := by
  cases busy : q.idle with
  | false =>
    obtain ⟨shows', same⟩ : (p.start slave).Shows q.start ∧ q.start = q :=
      start_held polite shows busy
    rw [same] at shows' ⊢
    exact ⟨shows', (ready.held busy).mono fun _ => Rest.byte⟩
  | true =>
    have silent : slave.pull q.hist = false := by
      by_contra pulls
      have answers := polite.answers q.hist (Bool.eq_true_of_not_eq_false pulls)
      rw [ready.free busy] at answers
      exact absurd answers Bool.false_ne_true
    obtain ⟨shows', started⟩ := start_free shows busy silent
    rw [started] at shows' ⊢
    exact ⟨shows', rfl, fun _ => .inr (.inl (by rw [of_append]; rfl))⟩

theorem stop_shows (polite : slave.Polite) (shows : p.Shows q) (here : At slave timeout Rest q) :
    (p.stop slave timeout).Shows (q.stop slave timeout) ∧ Ready slave timeout (q.stop slave timeout) := by
  obtain ⟨drive, clean, released, rfl⟩ := shows.low here.held
  rw [stop, setSda_sclH polite rfl rfl, I2cProto.stop]
  by_cases up : slave.inTime timeout q.hist = true
  · have silent := here.silent polite (fun _ rest => rest.slaves) up
    simp only [up, if_true, setSda, getSda, silent]
    refine ⟨⟨rfl, fun _ => ⟨rfl, rfl, rfl⟩, fun held => absurd held (by simp)⟩, fun _ => ?_, fun held =>
      absurd held (by simp)⟩
    rw [of_append]
    rfl
  · simp only [up, if_false, Bool.false_eq_true, setSda_low polite]
    exact ⟨shows_low, fun free => absurd free Bool.false_ne_true, fun _ => ⟨rfl, fun up' => absurd up' up⟩⟩

/-- The turn behind a byte that was sent: a slave goes on where it was addressed for reading. -/
def Answered (addressed : Prop) (data : BitVec 8) (ret : Int) (turn : I2cTurn) : Prop :=
  turn.Rest ∨ addressed ∧ turn = .read 0 ∧ ret = 1 ∧ data.getLsbD 0 = true

theorem next_answer : ∀ pulls last : Bool,
    ((next (behind last (.address 0)) (.bit !pulls)).Rest ∨
      next (behind last (.address 0)) (.bit !pulls) = .read 0 ∧ pulls = true ∧ last = true) ∧
    (next (behind last (.write 0)) (.bit !pulls)).Rest := by
  unfold Rest
  decide

theorem answer_turn {hist : List I2cSym} (byte : (of hist).Byte) {bits : List Bool}
    (seven : bits.length = 7) (last : Bool) {sent : List I2cSym}
    (whole : sent = hist ++ (bits ++ [last]).map .bit) :
    (of (sent ++ [.bit (!slave.pull sent)])).Rest ∨ of hist = .address 0 ∧
      of (sent ++ [.bit (!slave.pull sent)]) = .read 0 ∧ slave.pull sent = true ∧ last = true := by
  have turn := byte.foldl seven last
  have here : of sent = ((bits ++ [last]).map I2cSym.bit).foldl next (of hist) := by rw [whole, of_append]
  have after : of (sent ++ [.bit (!slave.pull sent)]) = next (of sent) (.bit (!slave.pull sent)) := by
    rw [of_append]
    rfl
  rw [after, here, turn]
  rcases byte with free | address | write
  · rw [free]
    exact .inl (.inl rfl)
  · rw [address]
    exact (next_answer _ last).1.imp id (⟨rfl, ·⟩)
  · rw [write]
    exact .inl (next_answer _ last).2

theorem writeb_agrees (polite : slave.Polite) (shows : p.Shows q) (here : At slave timeout Byte q) (data : BitVec 8) :
    Agrees slave timeout (Answered (slave.inTime timeout q.hist = true ∧ of q.hist = .address 0) data)
      (p.writeb slave timeout data) (q.writeb slave timeout data) := by
  obtain ⟨drive, clean, released, rfl⟩ := shows.low here.held
  have bits : msbFirst data = [7, 6, 5, 4, 3, 2, 1].map data.getLsbD ++ [data.getLsbD 0] := rfl
  obtain ⟨ended, shown, late⟩ := @writeBits_eq slave timeout ⟨false, drive, clean, q.hist, released⟩ polite data 8 q.hist
    (by rw [sclL_low rfl]) (by
      intro up k below
      by_contra pulls
      have answers := polite.answers _ (Bool.eq_true_of_not_eq_false pulls)
      rw [of_append, (here.turn up).slaves (by rw [List.length_take]; omega)] at answers
      exact Bool.false_ne_true answers)
  rw [show bitsBelow data 8 = msbFirst data from rfl] at ended shown
  unfold writeb I2cProto.writeb
  dsimp only
  generalize hsent : sendBits slave timeout (msbFirst data) q.hist = sent at ended shown ⊢
  generalize writeBits slave timeout data 8 ⟨false, drive, clean, q.hist, released⟩ = pins at ended shown late ⊢
  by_cases done : sent.1 = true
  · have whole : sent.2 = q.hist ++ (msbFirst data).map .bit := by
      rw [← hsent] at done ⊢
      exact sendBits_sent done
    have low : pins.2.sclL slave = ⟨false, (pins.2.sclL slave).drive, (pins.2.sclL slave).clean, sent.2,
        (pins.2.sclL slave).released⟩ := by
      rw [← shown, ← sclL_scl pins.2]
    simp only [ended, done, if_true, true_and, waitack]
    rw [setSda_sclH polite (sclL_scl pins.2) shown]
    by_cases up : slave.inTime timeout sent.2 = true
    · simp only [up, if_true, getSda, Bool.true_and, sclL_high]
      refine ⟨?_, shows_low, rfl, ?_⟩
      · cases slave.pull sent.2 <;> rfl
      · intro _
        have began := sendBits_up (hsent ▸ done)
        refine (answer_turn (here.turn began) (by rfl) (data.getLsbD 0) (bits ▸ whole)).imp id ?_
        rintro ⟨address, turn, pulls, low⟩
        exact ⟨⟨began, address⟩, turn, if_pos pulls, low⟩
    · simp only [up, if_false, Bool.false_eq_true]
      exact ⟨rfl, shows_low, rfl, fun up' => absurd up' up⟩
  · have stuck := sendBits_stuck (hsent ▸ Bool.eq_false_of_not_eq_true done)
    have failed : pins.1 = false := ended.trans (Bool.eq_false_of_not_eq_true done)
    have low : pins.2 = ⟨false, pins.2.drive, pins.2.clean, sent.2, pins.2.released⟩ := by
      rw [← shown, sclL_low (late failed), ← late failed]
    simp only [failed, done, if_false, Bool.false_eq_true, false_and]
    rw [low]
    rw [hsent] at stuck
    exact ⟨rfl, shows_low, rfl, fun up => absurd up (by simp [stuck])⟩

def Sending (turn : I2cTurn) : Prop := turn.Rest ∨ turn = .read 0

def Taken (turn : I2cTurn) : Prop := turn = .idle ∨ turn = .writeAck ∨ turn = .readAck

theorem Sending.taken {turn : I2cTurn} (sending : Sending turn) {bits : List Bool} (eight : bits.length = 8) :
    Taken ((bits.map I2cSym.bit).foldl next turn) := by
  obtain ⟨init, last, rfl⟩ : ∃ init last, bits = init ++ [last] := by
    have some : bits ≠ [] := by
      rintro rfl
      exact absurd eight (by decide)
    exact ⟨bits.dropLast, bits.getLast some, (List.dropLast_append_getLast some).symm⟩
  have seven : init.length = 7 := by simpa using eight
  rw [List.map_append, List.foldl_append]
  rcases sending with (rfl | rfl) | rfl
  · rw [foldl_idle]
    exact .inl rfl
  · rw [foldl_count next_write init (by omega), seven]
    exact .inr (.inl rfl)
  · rw [foldl_count next_read init (by omega), seven]
    exact .inr (.inr rfl)

theorem readb_agrees (polite : slave.Polite) (shows : p.Shows q) (here : At slave timeout Sending q) :
    Agrees slave timeout (fun ret turn => Taken turn ∧ 0 ≤ ret) (p.readb slave timeout) (q.readb slave timeout) ∧
      (p.readb slave timeout).2.drive = true := by
  obtain ⟨drive, clean, released, rfl⟩ := shows.low here.held
  rw [readb, setSda_low polite rfl]
  obtain ⟨value, shown, low, high⟩ :=
    @readBits_eq slave timeout ⟨false, true, clean, q.hist, released⟩ polite 8 q.hist rfl rfl rfl 0
  refine ⟨⟨value, ⟨shown, fun free => absurd free Bool.false_ne_true, fun _ => low⟩, rfl, ?_⟩, high⟩
  intro up
  simp only [I2cProto.readb] at up ⊢
  cases got : (recvBits slave timeout 8 q.hist).1 with
  | none =>
    rw [recvBits_stuck got] at up
    exact absurd up Bool.false_ne_true
  | some bits =>
    obtain ⟨eight, whole⟩ := recvBits_got got
    refine ⟨?_, Int.natCast_nonneg _⟩
    rw [whole, of_append]
    refine (here.turn ?_).taken eight
    by_contra late
    rw [recvBits, if_neg late] at got
    exact absurd got (by simp)

theorem next_taken : ∀ ack pulls : Bool, next .readAck (.bit !ack) = (if ack then .read 0 else .idle) ∧
    (next .writeAck (.bit (!ack && !pulls))).Rest := by
  unfold Rest
  decide

theorem sendAckOrNack_agrees (polite : slave.Polite) (shows : p.Shows q) (high : p.drive = true)
    (here : At slave timeout Taken q) (ack : Bool) :
    Agrees slave timeout (fun ret turn => (turn.Rest ∨ ack = true ∧ turn = .read 0) ∧ ret = 0)
      (p.sendAckOrNack slave timeout ack) (q.sendAckOrNack slave timeout ack) := by
  obtain ⟨drive, clean, released, rfl⟩ := shows.low here.held
  obtain rfl : drive = true := high
  have driven : (if ack then (⟨false, true, clean, q.hist, released⟩ : I2cPins).setSda slave false
      else ⟨false, true, clean, q.hist, released⟩) = ⟨false, !ack, clean, q.hist, released⟩ := by
    cases ack with
    | false => rfl
    | true => rw [if_pos rfl, setSda_low polite rfl, Bool.not_true]
  rw [sendAckOrNack, driven, sclH_low polite rfl, I2cProto.sendAckOrNack]
  by_cases up : slave.inTime timeout q.hist = true
  · simp only [up, if_true, sclL_high]
    refine ⟨rfl, shows_low, rfl, fun _ => ⟨?_, rfl⟩⟩
    rw [of_append]
    change (next (of q.hist) (.bit (!ack && !slave.pull q.hist))).Rest ∨ ack = true ∧
      next (of q.hist) (.bit (!ack && !slave.pull q.hist)) = .read 0
    rcases here.turn up with free | write | read
    · rw [free]
      exact .inl (.inl rfl)
    · rw [write]
      exact .inl (next_taken ack _).2
    · have silent : slave.pull q.hist = false := by
        by_contra pulls
        have answers := polite.answers q.hist (Bool.eq_true_of_not_eq_false pulls)
        rw [read] at answers
        exact absurd answers Bool.false_ne_true
      rw [read, silent, Bool.not_false, Bool.and_true, (next_taken ack false).1]
      cases ack with
      | false => exact .inl (.inl rfl)
      | true => exact .inr ⟨rfl, rfl⟩
  · simp only [up, if_false, Bool.false_eq_true]
    exact ⟨rfl, shows_low, rfl, fun up' => absurd up' up⟩

end I2cPins

namespace I2cOps

open I2cProto I2cTurn I2cPins

variable {slave : I2cSlave} {timeout : Nat} {p : I2cPins} {q : I2cProto} {msg : I2cMsg}

theorem writeb_agrees (polite : slave.Polite) (shows : p.Shows q) (here : At slave timeout Byte q) (data : BitVec 8) :
    Agrees slave timeout (Answered (slave.inTime timeout q.hist = true ∧ of q.hist = .address 0) data)
      ((i2cBitOps slave timeout).writeb data p) ((I2cProto.ops slave timeout).writeb data q) :=
  I2cPins.writeb_agrees polite shows here data

theorem writeb_rest (polite : slave.Polite) (shows : p.Shows q) (here : At slave timeout Rest q) (data : BitVec 8) :
    Agrees slave timeout (fun _ => Rest)
      ((i2cBitOps slave timeout).writeb data p) ((I2cProto.ops slave timeout).writeb data q) := by
  obtain ⟨same, shows', turn⟩ := writeb_agrees polite shows (here.mono fun _ => Rest.byte) data
  refine ⟨same, shows', turn.mono fun _ h => h.resolve_right ?_⟩
  rintro ⟨⟨up, address⟩, -⟩
  have rest := here.turn up
  rw [address] at rest
  exact absurd rest (by simp [Rest])

theorem sendBytes_agrees (polite : slave.Polite) (shows : p.Shows q) (here : At slave timeout Rest q)
    (count bytes : Nat) :
    Agrees slave timeout (fun _ => Rest) ((i2cBitOps slave timeout).sendBytes msg count bytes p)
      ((I2cProto.ops slave timeout).sendBytes msg count bytes q) := by
  induction count generalizing bytes p q with
  | zero => exact ⟨rfl, shows, here⟩
  | succ count ih =>
    obtain ⟨same, shows', turn⟩ := writeb_rest polite shows here (msg.buf bytes)
    simp only [sendBytes, same]
    split_ifs
    · exact ih shows' turn (bytes + 1)
    · exact ⟨rfl, shows', turn⟩
    · exact ⟨rfl, shows', turn⟩

theorem sendAddress_agrees (polite : slave.Polite) (shows : p.Shows q) (here : At slave timeout Byte q)
    (addr : BitVec 8) (retries : Nat) :
    Agrees slave timeout (fun ret turn => turn.Rest ∨ turn = .read 0 ∧ ret = 1 ∧ addr.getLsbD 0 = true)
      ((i2cBitOps slave timeout).sendAddress addr retries p)
      ((I2cProto.ops slave timeout).sendAddress addr retries q) := by
  induction retries generalizing p q with
  | zero =>
    obtain ⟨same, shows', turn⟩ := writeb_agrees polite shows here addr
    exact ⟨same, shows', turn.mono fun _ => Or.imp id And.right⟩
  | succ retries ih =>
    obtain ⟨same, shows', turn⟩ := writeb_agrees polite shows here addr
    simp only [sendAddress, same]
    split_ifs with acked
    · exact ⟨same, shows', turn.mono fun _ => Or.imp id And.right⟩
    · have rest := turn.mono fun _ h => h.resolve_right fun h => acked h.2.2.1
      obtain ⟨stopped, ready⟩ := stop_shows polite shows' rest
      obtain ⟨started, byte⟩ := start_shows polite stopped ready
      exact ih started byte

theorem recvBytes_agrees (polite : slave.Polite) (shows : p.Shows q) (plain : msg.noReadAck = false)
    (count bytes : Nat) (here : At slave timeout (fun turn => turn.Rest ∨ count ≠ 0 ∧ turn = .read 0) q) :
    ((i2cBitOps slave timeout).recvBytes count bytes msg p).1 =
        ((I2cProto.ops slave timeout).recvBytes count bytes msg q).1 ∧
      Agrees slave timeout (fun _ => Rest) ((i2cBitOps slave timeout).recvBytes count bytes msg p).2
        ((I2cProto.ops slave timeout).recvBytes count bytes msg q).2 := by
  induction count generalizing bytes msg p q with
  | zero => exact ⟨rfl, rfl, shows, here.mono fun _ h => h.resolve_right fun h => h.1 rfl⟩
  | succ count ih =>
    obtain ⟨⟨same, shows', turn⟩, high⟩ := readb_agrees polite shows (here.mono fun _ => Or.imp id And.right)
    have same' : ((i2cBitOps slave timeout).readb p).1 = ((I2cProto.ops slave timeout).readb q).1 := same
    have kept : ∀ buf, ({ msg with buf := buf } : I2cMsg).noReadAck = false := fun _ => plain
    obtain ⟨sent, shows₂, turn₂⟩ :=
      sendAckOrNack_agrees polite shows' high (turn.mono fun _ => And.left) (decide (count ≠ 0))
    have sent' : ((i2cBitOps slave timeout).sendAckOrNack (count ≠ 0) ((i2cBitOps slave timeout).readb p).2).1 =
        ((I2cProto.ops slave timeout).sendAckOrNack (count ≠ 0) ((I2cProto.ops slave timeout).readb q).2).1 := sent
    simp only [recvBytes, same', sent', kept, Bool.false_eq_true, if_false]
    split_ifs with got failed
    · refine ⟨rfl, rfl, shows₂, turn₂.mono fun _ h => ?_⟩
      exact absurd failed (Int.not_lt.mpr h.2.ge)
    · exact ih shows₂ (kept _) (bytes + 1) (turn₂.mono fun _ h => by simpa using h.1)
    · exact ⟨rfl, rfl, shows', turn.mono fun _ h => absurd h.2 got⟩

theorem address_low (addr : BitVec 16) : ((addr <<< 1).setWidth 8 : BitVec 8).getLsbD 0 = false ∧
    ((0xf0 : BitVec 8) ||| ((addr >>> 7).setWidth 8 &&& 0x06)).getLsbD 0 = false := by
  constructor
  · simp
  · simp

theorem bitSendAddress_agrees (polite : slave.Polite) (shows : p.Shows q) (here : At slave timeout Byte q)
    (retries : Nat) :
    Agrees slave timeout (fun ret turn => turn.Rest ∨ ret = 0 ∧ msg.read = true ∧ turn = .read 0)
      ((i2cBitOps slave timeout).bitSendAddress retries msg p)
      ((I2cProto.ops slave timeout).bitSendAddress retries msg q) := by
  obtain ⟨low, low'⟩ := address_low msg.addr
  unfold bitSendAddress
  by_cases ten : msg.tenBit = true
  · simp only [ten, if_true]
    generalize (if msg.ignoreNack then 0 else retries) = tries
    generalize (0xf0 : BitVec 8) ||| ((msg.addr >>> 7).setWidth 8 &&& 0x06) = addr1 at low' ⊢
    obtain ⟨same₁, shows₁, turn₁⟩ := sendAddress_agrees polite shows here addr1 tries
    have rest₁ : At slave timeout Rest _ := turn₁.mono fun _ h =>
      h.resolve_right fun h => Bool.false_ne_true (low'.symm.trans h.2.2)
    obtain ⟨same₂, shows₂, turn₂⟩ := writeb_rest polite shows₁ rest₁ (msg.addr.setWidth 8)
    obtain ⟨shows₃, turn₃⟩ := restart_shows polite shows₂ turn₂
    have again : Agrees slave timeout _
        ((i2cBitOps slave timeout).sendAddress (addr1 ||| 0x01) tries ((i2cBitOps slave timeout).restart _))
        ((I2cProto.ops slave timeout).sendAddress (addr1 ||| 0x01) tries ((I2cProto.ops slave timeout).restart _)) :=
      sendAddress_agrees polite shows₃ turn₃ (addr1 ||| 0x01) tries
    simp only [same₁, same₂, again.same]
    split_ifs with first second read
    · exact ⟨rfl, shows₁, rest₁.mono fun _ => .inl⟩
    · exact ⟨rfl, shows₂, turn₂.mono fun _ => .inl⟩
    · rename_i refused
      exact ⟨rfl, again.shows, again.turn.mono fun _ h => .inl (h.resolve_right fun h => refused.1 h.2.1)⟩
    · exact ⟨rfl, again.shows, again.turn.mono fun _ => Or.imp id fun h => ⟨rfl, read, h.1⟩⟩
    · exact ⟨rfl, shows₂, turn₂.mono fun _ => .inl⟩
  · simp only [ten, if_false, Bool.false_eq_true]
    have read : (if msg.read then (msg.addr <<< 1).setWidth 8 ||| 1 else (msg.addr <<< 1).setWidth 8).getLsbD 0 =
        true → msg.read = true := by
      intro high
      by_contra write
      rw [if_neg write, low] at high
      exact absurd high Bool.false_ne_true
    generalize (if msg.read then (msg.addr <<< 1).setWidth 8 ||| 1 else (msg.addr <<< 1).setWidth 8) = addr1 at read ⊢
    generalize (if msg.ignoreNack then 0 else retries) = tries
    obtain ⟨same, shows', turn⟩ := sendAddress_agrees polite shows here addr1 tries
    simp only [same]
    split_ifs with refused
    · exact ⟨rfl, shows', turn.mono fun _ h => .inl (h.resolve_right fun h => refused.1 h.2.1)⟩
    · exact ⟨rfl, shows', turn.mono fun _ => Or.imp id fun h => ⟨rfl, read h.2.2, h.1⟩⟩

/-- A message that is read has bytes, and they are acknowledged. -/
def Proper (msg : I2cMsg) : Prop := msg.read = true → msg.noReadAck = false ∧ msg.len.toNat ≠ 0

theorem xferBytes_agrees (polite : slave.Polite) (shows : p.Shows q) (proper : Proper msg)
    (here : At slave timeout (fun turn => turn.Rest ∨ msg.read = true ∧ turn = .read 0) q) :
    ((i2cBitOps slave timeout).xferBytes msg p).1 = ((I2cProto.ops slave timeout).xferBytes msg q).1 ∧
      Agrees slave timeout (fun _ => Rest) ((i2cBitOps slave timeout).xferBytes msg p).2
        ((I2cProto.ops slave timeout).xferBytes msg q).2 := by
  unfold xferBytes
  by_cases read : msg.read = true
  · obtain ⟨plain, some⟩ := proper read
    obtain ⟨ret, agrees⟩ := recvBytes_agrees polite shows plain msg.len.toNat 0
      (here.mono fun _ => Or.imp id fun h => ⟨some, h.2⟩)
    simp only [read, if_true, ret]
    exact ⟨trivial, agrees⟩
  · obtain ⟨ret, shows', turn⟩ := @sendBytes_agrees _ _ _ _ msg polite shows
      (here.mono fun _ h => h.resolve_right fun h => read h.1) msg.len.toNat 0
    simp only [read, if_false, ret, Bool.false_eq_true]
    exact ⟨trivial, rfl, shows', turn⟩

theorem xferMsg_agrees (polite : slave.Polite) (shows : p.Shows q) (proper : Proper msg) (retries : Nat)
    (first : Bool) (here : if first then msg.noStart = false ∧ Ready slave timeout q else At slave timeout Rest q) :
    ((i2cBitOps slave timeout).xferMsg retries first msg p).1 =
        ((I2cProto.ops slave timeout).xferMsg retries first msg q).1 ∧
      Agrees slave timeout (fun _ => Rest) ((i2cBitOps slave timeout).xferMsg retries first msg p).2
        ((I2cProto.ops slave timeout).xferMsg retries first msg q).2 := by
  unfold xferMsg
  by_cases continued : msg.noStart = true
  · simp only [continued, if_true]
    cases first with
    | true => exact absurd (here.1.symm.trans continued) Bool.false_ne_true
    | false => exact xferBytes_agrees polite shows proper (here.mono fun _ => .inl)
  · obtain ⟨started, byte⟩ : ((if first then (i2cBitOps slave timeout).start p
          else (i2cBitOps slave timeout).restart p).Shows
        (if first then (I2cProto.ops slave timeout).start q else (I2cProto.ops slave timeout).restart q)) ∧
        At slave timeout Byte
          (if first then (I2cProto.ops slave timeout).start q else (I2cProto.ops slave timeout).restart q) := by
      cases first with
      | true => exact start_shows polite shows here.2
      | false => exact restart_shows polite shows here
    generalize (if first then (i2cBitOps slave timeout).start p else (i2cBitOps slave timeout).restart p) = p₀
      at started ⊢
    generalize (if first then (I2cProto.ops slave timeout).start q else (I2cProto.ops slave timeout).restart q) = q₀
      at started byte ⊢
    obtain ⟨same, shows', turn⟩ := @bitSendAddress_agrees _ _ _ _ msg polite started byte retries
    have bytes := xferBytes_agrees polite shows' proper (turn.mono fun _ => Or.imp id And.right)
    simp only [continued, same, Bool.false_eq_true, if_false]
    split_ifs with refused
    · exact ⟨rfl, rfl, shows', turn.mono fun _ h => h.resolve_right fun h => refused.1 h.1⟩
    · exact bytes

theorem ending_shows (polite : slave.Polite) (shows : p.Shows q) (here : At slave timeout Rest q) (noStop : Bool) :
    (if noStop then p else (i2cBitOps slave timeout).stop p).Shows
        (if noStop then q else (I2cProto.ops slave timeout).stop q) ∧
      Ready slave timeout (if noStop then q else (I2cProto.ops slave timeout).stop q) := by
  cases noStop with
  | true => exact ⟨shows, fun free => absurd (here.held.symm.trans free) Bool.false_ne_true, fun _ => here⟩
  | false => exact stop_shows polite shows here

theorem xferMsgs_agrees (polite : slave.Polite) (shows : p.Shows q) (proper : Proper msg) {rest : List I2cMsg}
    (others : ∀ msg ∈ rest, Proper msg) (retries num : Nat) (first : Bool)
    (here : if first then msg.noStart = false ∧ Ready slave timeout q else At slave timeout Rest q) :
    ((i2cBitOps slave timeout).xferMsgs retries num first msg rest p).ret =
        ((I2cProto.ops slave timeout).xferMsgs retries num first msg rest q).ret ∧
      ((i2cBitOps slave timeout).xferMsgs retries num first msg rest p).msgs =
        ((I2cProto.ops slave timeout).xferMsgs retries num first msg rest q).msgs ∧
      ((i2cBitOps slave timeout).xferMsgs retries num first msg rest p).bus.Shows
        ((I2cProto.ops slave timeout).xferMsgs retries num first msg rest q).bus ∧
      Ready slave timeout ((I2cProto.ops slave timeout).xferMsgs retries num first msg rest q).bus := by
  induction rest generalizing msg first p q with
  | nil =>
    obtain ⟨ret, same, shows', turn⟩ := xferMsg_agrees polite shows proper retries first here
    simp only [xferMsgs, ret, same]
    exact ⟨trivial, trivial, ending_shows polite shows' turn msg.noStop⟩
  | cons next rest ih =>
    obtain ⟨ret, same, shows', turn⟩ := xferMsg_agrees polite shows proper retries first here
    simp only [xferMsgs, ret, same]
    cases ((I2cProto.ops slave timeout).xferMsg retries first msg q).1 with
    | some err => exact ⟨rfl, rfl, ending_shows polite shows' turn msg.noStop⟩
    | none =>
      obtain ⟨ret', msgs', later⟩ := ih shows' (others next (List.mem_cons_self ..))
        (fun m mem => others m (List.mem_cons_of_mem _ mem)) false turn
      exact ⟨ret', congrArg _ msgs', later⟩

def ProperXfer (msgs : List I2cMsg) : Prop :=
  (∀ msg ∈ msgs, Proper msg) ∧ ∀ msg ∈ msgs.head?, msg.noStart = false

theorem i2cBitXfer_agrees (polite : slave.Polite) (shows : p.Shows q) (ready : Ready slave timeout q) (retries : Nat)
    {msgs : List I2cMsg} (proper : ProperXfer msgs) :
    ((i2cBitOps slave timeout).i2cBitXfer retries msgs p).ret =
        ((I2cProto.ops slave timeout).i2cBitXfer retries msgs q).ret ∧
      ((i2cBitOps slave timeout).i2cBitXfer retries msgs p).msgs =
        ((I2cProto.ops slave timeout).i2cBitXfer retries msgs q).msgs ∧
      ((i2cBitOps slave timeout).i2cBitXfer retries msgs p).bus.Shows
        ((I2cProto.ops slave timeout).i2cBitXfer retries msgs q).bus ∧
      Ready slave timeout ((I2cProto.ops slave timeout).i2cBitXfer retries msgs q).bus := by
  obtain ⟨each, starts⟩ := proper
  cases msgs with
  | nil => exact ⟨rfl, rfl, shows, ready⟩
  | cons msg rest =>
    exact xferMsgs_agrees polite shows (each msg (List.mem_cons_self ..))
      (fun m mem => each m (List.mem_cons_of_mem _ mem)) retries _ true ⟨starts msg rfl, ready⟩

def xferNext {σ : Type} (ops : I2cOps σ) (retries : Nat) (done : List (Int × List I2cMsg) × σ) (msgs : List I2cMsg) :
    List (Int × List I2cMsg) × σ :=
  let x := ops.i2cBitXfer retries msgs done.2
  (done.1 ++ [(x.ret, x.msgs)], x.bus)

def xfers {σ : Type} (ops : I2cOps σ) (retries : Nat) (calls : List (List I2cMsg)) (s : σ) :
    List (Int × List I2cMsg) × σ := calls.foldl (xferNext ops retries) ([], s)

theorem xfers_agree (polite : slave.Polite) (shows : p.Shows q) (ready : Ready slave timeout q) (retries : Nat)
    {calls : List (List I2cMsg)} (proper : ∀ msgs ∈ calls, ProperXfer msgs) (done : List (Int × List I2cMsg)) :
    (calls.foldl (xferNext (i2cBitOps slave timeout) retries) (done, p)).1 =
        (calls.foldl (xferNext (I2cProto.ops slave timeout) retries) (done, q)).1 ∧
      (calls.foldl (xferNext (i2cBitOps slave timeout) retries) (done, p)).2.Shows
        (calls.foldl (xferNext (I2cProto.ops slave timeout) retries) (done, q)).2 := by
  induction calls generalizing p q done with
  | nil => exact ⟨rfl, shows⟩
  | cons msgs calls ih =>
    obtain ⟨ret, same, shows', ready'⟩ :=
      i2cBitXfer_agrees polite shows ready retries (proper msgs (List.mem_cons_self ..))
    simp only [List.foldl_cons, xferNext, ret, same]
    exact ih shows' ready' (fun m mem => proper m (List.mem_cons_of_mem _ mem)) _

end I2cOps

def zeroSlave : I2cSlave where
  pull hist := (I2cTurn.of hist).slaves
  stretch _ := 1
  tick _ i := i
  late _ _ := false

theorem zeroSlave_polite : zeroSlave.Polite := ⟨fun _ pulls => pulls, fun _ _ => rfl⟩

end NuMakerMA35
