import NuMakerMA35.UsbPipe

namespace NuMakerMA35

/-- The packet of a `SETUP` token; an `OUT` call has copied the caller's bytes by then. -/
def PipeCall.packet (c : PipeCall) (s : PipeState) : Nat → BitVec 8 :=
  if c.bufferNonch = .pkt then
    (if c.isIn then s.pktBuf else s.pktBuf.put c.nbytes.toNat s.buffer.bytes).bytes
  else s.buffer.bytes

def PipeCall.length (c : PipeCall) (s : PipeState) : Nat :=
  if c.bmAttributes = usbEpAttrControl then
    (if c.token = usbhPidSetup then Urequest.read (c.packet s) else s.setup).wLength.toNat
  else c.nbytes.toNat

/-- What a call owes its buffers: nothing is written behind the packet buffer, and the caller's
buffer receives the bytes transferred, no others, and none behind its own. -/
structure PipeState.Kept (t : PipeState) (c : PipeCall) : Prop where
  inside : t.pktBuf.top ≤ pktBufSize
  received : c.hasBuffer = true → t.buffer.top = t.wire.1
  room : c.hasBuffer = true → t.wire.1 ≤ c.nbytes.toNat
  bytes : c.hasBuffer = true → ∀ i < t.wire.1, t.buffer.bytes i = t.wire.2 i

def intTries : List BusReply → List BusReply
  | [] => []
  | r :: replies => if r.submit < 0 ∨ r.done = true then [r] else r :: intTries replies

def BusReply.brought (r : BusReply) (setup : Urequest) : Nat :=
  if setup.isIn then r.moved else 0

/-- The data stage of the request fits: a transfer that succeeds moves what the buffers hold, one
that does not exactly what is copied in any case. -/
def BusReply.FitsRequest (r : BusReply) (setup : Urequest) (nbytes : Nat) : Prop :=
  r.brought setup ≤ pktBufSize ∧
    if r.ctrlRet > 0 then setup.isIn ∧ r.brought setup ≤ nbytes else r.brought setup = nbytes

/-- The transfers of an `IN` pipe that fit its buffers. -/
def PipeCall.FitsIn (c : PipeCall) (s : PipeState) (a : UsbAnswers) : Prop :=
  if c.bmAttributes = usbEpAttrControl then
    if c.token = usbhPidSetup then
      let setup := Urequest.read s.pktBuf.bytes
      c.through → setup.isIn ∨ ∀ r ∈ a.replies.head?, r.ctrlRet = setup.wLength.toNat
    else if s.sent = 0 then
      c.hasBuffer → ∀ r ∈ a.replies.head?, r.FitsRequest s.setup c.nbytes.toNat
    else c.through → c.nbytes ≤ s.sent ∧ 0 < c.nbytes.toInt
  else
    c.through → a.utr = true ∧
      if c.bmAttributes = usbEpAttrBulk then
        ∀ r ∈ a.replies.head?, r.moved ≤ pktBufSize ∧ r.moved = c.nbytes.toNat
      else if c.bmAttributes = usbEpAttrInt then
        (∀ r ∈ intTries a.replies, r.moved ≤ pktBufSize) ∧
          ∀ r ∈ (intTries a.replies).getLast?, r.moved = c.nbytes.toNat
      else False

def PipeCall.Fits (c : PipeCall) (s : PipeState) (a : UsbAnswers) : Prop :=
  c.portCtrl = true → s.udev = true →
    if c.isIn then c.FitsIn s a else c.through → c.nbytes.toNat ≤ pktBufSize

namespace PipeState

variable {s t : PipeState} {c : PipeCall} {a : UsbAnswers} {r : BusReply} {replies : List BusReply}
  {n : Nat} {err : Int}

theorem put_top (p : PipeBuf) (src : Nat → BitVec 8) (none : p.top = 0) : (p.put n src).top = n := by
  unfold PipeBuf.put
  rw [none, Nat.zero_max]

theorem put_bytes (p : PipeBuf) (src : Nat → BitVec 8) {i : Nat} (low : i < n) :
    (p.put n src).bytes i = src i := if_pos low

/-- Nothing has reached the caller's buffer yet, and what has moved is in the packet buffer. -/
structure Staged (s : PipeState) : Prop where
  buffer : s.buffer.top = 0
  bytes : ∀ i < s.wire.1, s.pktBuf.bytes i = s.wire.2 i

theorem Staged.copied (staged : s.Staged) (through : c.through = true) :
    (s.copyOut n .pkt).Kept c ↔
      s.pktBuf.top ≤ pktBufSize ∧ n = s.wire.1 ∧ s.wire.1 ≤ c.nbytes.toNat := by
  have given : c.hasBuffer = true := by
    unfold PipeCall.through at through
    exact (Bool.and_eq_true_iff.mp through).1
  have top : (s.copyOut n .pkt).buffer.top = n := put_top _ _ staged.buffer
  constructor
  · rintro ⟨inside, received, room, -⟩
    exact ⟨inside, top.symm.trans (received given), room given⟩
  · rintro ⟨inside, same, room⟩
    refine ⟨inside, fun _ => top.trans same, fun _ => room, ?_⟩
    intro _ i low
    have early : i < n := by
      rw [same]
      exact low
    exact (put_bytes _ _ early).trans (staged.bytes i low)

structure Idle (s : PipeState) : Prop where
  buffer : s.buffer.top = 0
  wire : s.wire.1 = 0

theorem Idle.staged (idle : s.Idle) : s.Staged := by
  refine ⟨idle.buffer, ?_⟩
  intro i low
  rw [idle.wire] at low
  omega

theorem Idle.kept (idle : s.Idle) : s.Kept c ↔ s.pktBuf.top ≤ pktBufSize := by
  refine ⟨Kept.inside, ?_⟩
  intro inside
  refine ⟨inside, ?_, ?_, ?_⟩
  · intro _
    rw [idle.buffer, idle.wire]
  · intro _
    rw [idle.wire]
    exact Nat.zero_le _
  · intro _ i low
    rw [idle.wire] at low
    omega

theorem through_ne (through : c.through = true) : c.nbytes.toNat ≠ 0 := by
  unfold PipeCall.through at through
  have some := (Bool.and_eq_true_iff.mp through).2
  intro zero
  rw [decide_eq_true_eq] at some
  exact some (BitVec.eq_of_toNat_eq zero)

theorem Idle.exit (idle : s.Idle) (isIn : c.isIn = true) :
    (s.exit c).Kept c ↔ c.through = false ∧ s.pktBuf.top ≤ pktBufSize := by
  unfold PipeState.exit
  by_cases through : c.through = true
  · rw [if_pos ⟨through, isIn⟩, idle.staged.copied through, idle.wire]
    refine iff_of_false ?_ ?_
    · rintro ⟨-, same, -⟩
      exact through_ne through same
    · rintro ⟨never, -⟩
      rw [through] at never
      cases never
  · rw [if_neg fun both => through both.1, idle.kept]
    exact (and_iff_right (Bool.eq_false_iff.mpr through)).symm

theorem exit_out (out : c.isIn = false) : s.exit c = s := by
  unfold PipeState.exit
  refine if_neg ?_
  rintro ⟨-, isIn⟩
  rw [out] at isIn
  cases isIn

def bufs (s : PipeState) : PipeBuf × PipeBuf × Nat × (Nat → BitVec 8) := (s.pktBuf, s.buffer, s.wire)

theorem kept_congr (same : s.bufs = t.bufs) : s.Kept c ↔ t.Kept c := by
  obtain ⟨pktBuf, rest⟩ := Prod.mk.inj same
  obtain ⟨buffer, wire⟩ := Prod.mk.inj rest
  constructor <;> rintro ⟨inside, received, room, bytes⟩
  · rw [pktBuf] at inside
    rw [buffer, wire] at received bytes
    rw [wire] at room
    exact ⟨inside, received, room, bytes⟩
  · rw [← pktBuf] at inside
    rw [← buffer, ← wire] at received bytes
    rw [← wire] at room
    exact ⟨inside, received, room, bytes⟩

theorem copyOut_bufs (same : s.bufs = t.bufs) (buffer : XferBuf) :
    (s.copyOut n buffer).bufs = (t.copyOut n buffer).bufs := by
  obtain ⟨pkt, rest⟩ := Prod.mk.inj same
  obtain ⟨caller, wire⟩ := Prod.mk.inj rest
  cases buffer <;> simp [copyOut, bufs, pkt, caller, wire]

theorem exit_bufs (same : s.bufs = t.bufs) : (s.exit c).bufs = (t.exit c).bufs := by
  unfold PipeState.exit
  split_ifs
  · exact copyOut_bufs same .pkt
  · exact same

def dataStage (s : PipeState) (setup : Urequest) (r : BusReply) (buffer : XferBuf) : PipeState :=
  if setup.isIn then s.receive r buffer else s

theorem nuCtrlXfer_bufs (setup : Urequest) (buffer : XferBuf) :
    (s.nuCtrlXfer setup buffer r).1.bufs = (s.dataStage setup r buffer).bufs ∧
      (s.nuCtrlXfer setup buffer r).2 = r.ctrlRet := by
  unfold nuCtrlXfer dataStage
  dsimp only
  generalize (if setup.isIn = true then s.receive r buffer else s) = q
  split_ifs <;> exact ⟨rfl, rfl⟩

theorem ctrlRet_moved {len : Nat} (sound : r.Sound len) (short : len < 2 ^ 16) (some : r.ctrlRet > 0) :
    r.ctrlRet = r.moved := by
  unfold BusReply.ctrlRet BusReply.usbhCtrlXfer at some ⊢
  dsimp only at some ⊢
  by_cases refused : r.submit < 0
  · rw [if_pos refused, if_pos refused] at some
    omega
  · rw [if_neg refused] at some ⊢
    by_cases late : r.done = false
    · rw [if_pos late] at some
      exact absurd some (by decide)
    · rw [if_neg late] at some ⊢
      by_cases fine : r.status = 0
      · have length := sound.xferLen (Bool.not_eq_false _ ▸ late) fine
        have most := sound.moved
        simp only [fine, if_true] at some ⊢
        rw [if_neg (lt_irrefl 0), BitVec.toInt_eq_toNat_of_lt (by omega), length]
      · simp only [fine, if_false] at some
        split_ifs at some
        · omega
        · exact absurd some (by decide)

structure Empty (s : PipeState) : Prop extends Idle s where
  pktBuf : s.pktBuf.top = 0

theorem unwritten_empty : s.unwritten.Empty := ⟨⟨rfl, rfl⟩, rfl⟩

theorem receive_pkt (empty : s.Empty) :
    (s.receive r .pkt).Staged ∧ (s.receive r .pkt).pktBuf.top = r.moved := by
  refine ⟨⟨empty.buffer, ?_⟩, put_top _ _ empty.pktBuf⟩
  intro i low
  exact put_bytes _ _ low

theorem dataStage_pkt (empty : s.Empty) (setup : Urequest) :
    (s.dataStage setup r .pkt).Staged ∧
      (s.dataStage setup r .pkt).pktBuf.top = r.brought setup ∧
      (s.dataStage setup r .pkt).wire.1 = r.brought setup := by
  obtain ⟨staged, top⟩ := receive_pkt (r := r) empty
  unfold dataStage BusReply.brought
  split_ifs
  · exact ⟨staged, top, rfl⟩
  · exact ⟨empty.toIdle.staged, empty.pktBuf, empty.wire⟩

theorem requestData_pkt {q : PipeState} {setup : Urequest} {len : Nat} (empty : s.Empty)
    (through : c.through = true) (isIn : c.isIn = true) (sound : r.Sound len) (short : len < 2 ^ 16)
    (same : q.bufs = (s.dataStage setup r .pkt).bufs) :
    (if r.ctrlRet > 0 then q.copyOut r.ctrlRet.toNat .pkt else q.exit c).Kept c ↔
      r.FitsRequest setup c.nbytes.toNat := by
  obtain ⟨staged, top, wire⟩ := dataStage_pkt (r := r) empty setup
  unfold BusReply.FitsRequest
  by_cases some : r.ctrlRet > 0
  · rw [if_pos some, if_pos some, kept_congr (copyOut_bufs same .pkt), staged.copied through, top, wire]
    refine and_congr_right fun _ => and_congr_left fun _ => ?_
    have length := ctrlRet_moved sound short some
    unfold BusReply.brought
    rw [length, Int.toNat_natCast]
    by_cases request : setup.isIn = true
    · simp [request]
    · rw [if_neg request]
      exact iff_of_false (by omega) request
  · rw [if_neg some, if_neg some, kept_congr (exit_bufs same)]
    unfold PipeState.exit
    rw [if_pos ⟨through, isIn⟩, staged.copied through, top, wire]
    refine and_congr_right fun _ => ?_
    constructor
    · rintro ⟨length, -⟩
      exact length.symm
    · intro length
      exact ⟨length.symm, le_of_eq length⟩

theorem requestData_caller {q : PipeState} {setup : Urequest} {len : Nat} (empty : s.Empty)
    (given : c.hasBuffer = true) (none : c.nbytes = 0) (sound : r.Sound len) (short : len < 2 ^ 16)
    (same : q.bufs = (s.dataStage setup r .caller).bufs) :
    (if r.ctrlRet > 0 then q.copyOut r.ctrlRet.toNat .caller else q.exit c).Kept c ↔
      r.FitsRequest setup c.nbytes.toNat := by
  have noBytes : c.nbytes.toNat = 0 := by
    rw [none]
    rfl
  have direct : ¬(c.through = true ∧ c.isIn = true) := by
    rintro ⟨through, -⟩
    exact through_ne through noBytes
  have top : (s.dataStage setup r .caller).buffer.top = r.brought setup ∧
      (s.dataStage setup r .caller).wire.1 = r.brought setup ∧
      (s.dataStage setup r .caller).pktBuf.top = 0 := by
    unfold dataStage BusReply.brought
    split_ifs
    · exact ⟨put_top _ _ empty.buffer, rfl, empty.pktBuf⟩
    · exact ⟨empty.buffer, empty.wire, empty.pktBuf⟩
  obtain ⟨buffer, wire, pkt⟩ := top
  unfold BusReply.FitsRequest
  rw [noBytes]
  by_cases some : r.ctrlRet > 0
  · rw [if_pos some, if_pos some, kept_congr (copyOut_bufs same .caller)]
    refine iff_of_false ?_ ?_
    · intro kept
      have copied := kept.received given
      have room := kept.room given
      have grown : ((s.dataStage setup r .caller).copyOut r.ctrlRet.toNat .caller).buffer.top =
          max (s.dataStage setup r .caller).buffer.top r.ctrlRet.toNat := rfl
      rw [grown] at copied
      have least := le_max_right (s.dataStage setup r .caller).buffer.top r.ctrlRet.toNat
      have same : ((s.dataStage setup r .caller).copyOut r.ctrlRet.toNat .caller).wire =
          (s.dataStage setup r .caller).wire := rfl
      rw [same] at copied room
      omega
    · rintro ⟨-, request, least⟩
      have length := ctrlRet_moved sound short some
      unfold BusReply.brought at least
      rw [if_pos request] at least
      omega
  · rw [if_neg some, if_neg some, kept_congr (exit_bufs same)]
    unfold PipeState.exit
    rw [if_neg direct]
    constructor
    · intro kept
      have room := kept.room given
      rw [wire, noBytes] at room
      exact ⟨by omega, by omega⟩
    · rintro ⟨-, nothing⟩
      refine ⟨by omega, fun _ => by omega, fun _ => by omega, ?_⟩
      intro _ i low
      omega

theorem Idle.direct (idle : s.Idle) (direct : c.through = false) (sound : r.Sound c.nbytes.toNat) :
    (s.receive r c.bufferNonch).Idle ∧ (s.receive r c.bufferNonch).pktBuf = s.pktBuf := by
  unfold PipeCall.bufferNonch
  rw [direct, if_neg Bool.false_ne_true]
  split_ifs with given
  · unfold PipeCall.through at direct
    rw [given, Bool.true_and, decide_eq_false_iff_not, not_not] at direct
    have moved := sound.moved
    rw [direct] at moved
    have none : r.moved = 0 := Nat.le_zero.mp moved
    refine ⟨⟨?_, none⟩, rfl⟩
    exact (put_top _ _ idle.buffer).trans none
  · exact ⟨idle, rfl⟩

theorem nuIntXfer_pkt (none : s.buffer.top = 0)
    (ret : s.nuIntXfer true .pkt replies = some (t, err)) :
    t.Staged ∧ (t.pktBuf.top ≤ pktBufSize ↔
      s.pktBuf.top ≤ pktBufSize ∧ ∀ r ∈ intTries replies, r.moved ≤ pktBufSize) ∧
        ∃ r, (intTries replies).getLast? = some r ∧ t.wire.1 = r.moved := by
  induction replies generalizing s with
  | nil => cases ret
  | cons r replies ih =>
    have staged : (s.receive r .pkt).Staged := ⟨none, fun i low => put_bytes _ _ low⟩
    have top : (s.receive r .pkt).pktBuf.top = max s.pktBuf.top r.moved := rfl
    unfold nuIntXfer at ret
    simp only [if_true] at ret
    unfold intTries
    by_cases last : r.submit < 0 ∨ r.done = true
    · have here : t = s.receive r .pkt := by
        split_ifs at ret with refused ended
        · cases ret
          rfl
        · cases ret
          rfl
        · rcases last with refused' | ended'
          · exact absurd refused' refused
          · exact absurd ended' ended
      rw [if_pos last, here, top]
      refine ⟨staged, ?_, r, rfl, rfl⟩
      simp
    · obtain ⟨taken, late⟩ := not_or.mp last
      rw [if_neg taken, if_neg late] at ret
      obtain ⟨done, inside, final, found, wire⟩ := ih (s := s.receive r .pkt) none ret
      rw [if_neg last]
      refine ⟨done, ?_, final, ?_, wire⟩
      · rw [inside, top]
        simp [and_assoc]
      · rw [List.getLast?_cons, found]
        rfl

theorem nuIntXfer_direct (idle : s.Idle) (direct : c.through = false)
    (sound : ∀ r ∈ replies, r.Sound c.nbytes.toNat)
    (ret : s.nuIntXfer true c.bufferNonch replies = some (t, err)) :
    t.Idle ∧ t.pktBuf = s.pktBuf := by
  induction replies generalizing s with
  | nil => cases ret
  | cons r replies ih =>
    obtain ⟨still, same⟩ := idle.direct direct (sound r List.mem_cons_self)
    unfold nuIntXfer at ret
    simp only [if_true] at ret
    split_ifs at ret
    · cases ret
      exact ⟨still, same⟩
    · cases ret
      exact ⟨still, same⟩
    · obtain ⟨idle', same'⟩ := ih still (fun r mem => sound r (List.mem_cons_of_mem _ mem)) ret
      exact ⟨idle', same'.trans same⟩

theorem nuIntXfer_out {buffer : XferBuf} (ret : s.nuIntXfer false buffer replies = some (t, err)) :
    t = s := by
  induction replies generalizing s with
  | nil => cases ret
  | cons r replies ih =>
    unfold nuIntXfer at ret
    simp only [Bool.false_eq_true, if_false] at ret
    split_ifs at ret
    · cases ret
      rfl
    · cases ret
      rfl
    · exact ih ret

theorem bufferNonch_pkt : c.bufferNonch = .pkt ↔ c.through = true := by
  unfold PipeCall.bufferNonch
  split_ifs with through given <;> simp [through]

theorem ctrlPipeXfer_setup (token : c.token = usbhPidSetup)
    (ret : s.ctrlPipeXfer c replies = some (t, err)) {setup : Urequest}
    (request : setup = Urequest.read (if c.through then s.pktBuf.bytes else s.buffer.bytes)) :
    ∃ q : PipeState, q.bufs = s.bufs ∧
      if setup.isIn ∨ ∀ r ∈ replies.head?, r.ctrlRet = setup.wLength.toNat then t = q
      else t = q.exit c := by
  unfold ctrlPipeXfer at ret
  rw [if_pos token] at ret
  split at ret
  · cases ret
  · simp only [bufferNonch_pkt, ← request] at ret
    by_cases isIn : setup.isIn = true
    · rw [if_pos isIn] at ret
      cases ret
      refine ⟨{ s with setup := setup, sent := 0 }, rfl, ?_⟩
      rw [if_pos (Or.inl isIn)]
    · rw [if_neg isIn] at ret
      obtain ⟨r, found, same⟩ := Option.map_eq_some_iff.mp ret
      obtain ⟨bufs, code⟩ := nuCtrlXfer_bufs (s := { s with sent := 0 }) (r := r) setup .null
      have none (q : PipeState) : q.dataStage setup r .null = q := if_neg isIn
      rw [none] at bufs
      refine ⟨_, bufs, ?_⟩
      rw [code] at same
      rw [found]
      simp only [isIn, false_or, Option.mem_def, Option.some.injEq, forall_eq', Bool.false_eq_true]
      by_cases all : r.ctrlRet = setup.wLength.toNat
      · rw [if_neg (not_not.mpr all)] at same
        rw [if_pos all]
        exact (Prod.mk.inj same).1.symm
      · rw [if_pos all] at same
        rw [if_neg all]
        exact (Prod.mk.inj same).1.symm

theorem ctrlPipeXfer_out (out : c.isIn = false) (ret : s.ctrlPipeXfer c replies = some (t, err)) :
    t.bufs = s.bufs := by
  by_cases token : c.token = usbhPidSetup
  · obtain ⟨q, bufs, here⟩ := ctrlPipeXfer_setup token ret rfl
    rw [exit_out out, ite_self] at here
    rw [here]
    exact bufs
  · unfold ctrlPipeXfer at ret
    rw [if_neg token, out, if_neg fun both => Bool.false_ne_true both.2] at ret
    cases ret
    rfl

theorem utrPipeXfer_out (out : c.isIn = false) (ret : s.utrPipeXfer c a = some (t, err)) :
    t.bufs = s.bufs := by
  unfold utrPipeXfer at ret
  simp only [exit_out out] at ret
  simp only [out, Bool.false_eq_true, if_false] at ret
  split_ifs at ret
  · cases ret
    rfl
  · obtain ⟨r, -, same⟩ := Option.map_eq_some_iff.mp ret
    cases same
    rfl
  · obtain ⟨⟨q, code⟩, tried, same⟩ := Option.map_eq_some_iff.mp ret
    cases same
    rw [nuIntXfer_out tried]
  · cases ret
    rfl
  · cases ret
    rfl

theorem Empty.exit (empty : s.Empty) (isIn : c.isIn = true) (same : t.bufs = s.bufs) :
    (t.exit c).Kept c ↔ c.through = false := by
  rw [kept_congr (exit_bufs same), empty.toIdle.exit isIn, empty.pktBuf]
  exact and_iff_left (Nat.zero_le _)

theorem Empty.kept (empty : s.Empty) (same : t.bufs = s.bufs) : t.Kept c := by
  rw [kept_congr same, empty.toIdle.kept, empty.pktBuf]
  exact Nat.zero_le _

theorem bufferNonch_ne_null : c.bufferNonch ≠ .null ↔ c.hasBuffer = true := by
  unfold PipeCall.bufferNonch PipeCall.through
  cases c.hasBuffer <;> simp
  split_ifs <;> simp

theorem through_false_iff {p : Prop} (never : ¬p) : c.through = false ↔ (c.through = true → p) := by
  cases c.through with
  | false => simp
  | true => simp [never]

theorem ctrlPipeXfer_in (control : c.bmAttributes = usbEpAttrControl) (isIn : c.isIn = true)
    (empty : s.Empty)
    (sound : c.token ≠ usbhPidSetup → ∀ r ∈ a.replies, r.Sound s.setup.wLength.toNat)
    (ret : s.ctrlPipeXfer c a.replies = some (t, err)) : t.Kept c ↔ c.FitsIn s a := by
  unfold PipeCall.FitsIn
  rw [if_pos control]
  by_cases token : c.token = usbhPidSetup
  · rw [if_pos token]
    obtain ⟨q, bufs, here⟩ := ctrlPipeXfer_setup token ret rfl
    by_cases through : c.through = true
    · rw [if_pos through] at here
      simp only [through, forall_const]
      split_ifs at here with fine
      · rw [here]
        exact iff_of_true (empty.kept bufs) fine
      · rw [here, empty.exit isIn bufs, through]
        exact iff_of_false Bool.false_ne_true.symm fine
    · refine iff_of_true ?_ fun yes => absurd yes through
      split_ifs at here
      · rw [here]
        exact empty.kept bufs
      · rw [here, empty.exit isIn bufs]
        exact Bool.eq_false_iff.mpr through
  · rw [if_neg token]
    unfold ctrlPipeXfer at ret
    rw [if_neg token] at ret
    by_cases given : c.hasBuffer = true
    · rw [if_pos ⟨bufferNonch_ne_null.mpr given, isIn⟩] at ret
      by_cases first : s.sent = 0
      · rw [if_pos first] at ret ⊢
        obtain ⟨r, found, same⟩ := Option.map_eq_some_iff.mp ret
        have promise := sound token r (List.mem_of_mem_head? found)
        obtain ⟨bufs, code⟩ := nuCtrlXfer_bufs (s := s) (r := r) s.setup c.bufferNonch
        simp only [found, Option.mem_def, Option.some.injEq, forall_eq', given, forall_const]
        dsimp only at same
        rw [code] at same
        have result : t = if r.ctrlRet > 0 then
            { (s.nuCtrlXfer s.setup c.bufferNonch r).1 with
              sent := BitVec.ofInt 32 r.ctrlRet }.copyOut r.ctrlRet.toNat c.bufferNonch
          else { (s.nuCtrlXfer s.setup c.bufferNonch r).1 with
              sent := BitVec.ofInt 32 r.ctrlRet }.exit c := by
          split_ifs at same ⊢
          · exact (Prod.mk.inj same).1.symm
          · exact (Prod.mk.inj same).1.symm
        rw [result]
        by_cases through : c.through = true
        · rw [bufferNonch_pkt.mpr through] at bufs ⊢
          exact requestData_pkt empty through isIn promise (BitVec.isLt _) bufs
        · have direct : c.bufferNonch = .caller := by
            unfold PipeCall.bufferNonch
            rw [if_neg through, if_pos given]
          have none : c.nbytes = 0 := by
            unfold PipeCall.through at through
            rw [given, Bool.true_and, decide_eq_true_eq, not_not] at through
            exact through
          rw [direct] at bufs ⊢
          exact requestData_caller empty given none promise (BitVec.isLt _) bufs
      · rw [if_neg first] at ret ⊢
        by_cases less : s.sent < c.nbytes
        · rw [if_pos less] at ret
          cases ret
          refine (empty.exit isIn rfl).trans (through_false_iff ?_)
          rintro ⟨least, -⟩
          exact BitVec.not_lt.mpr least less
        · rw [if_neg less] at ret
          dsimp only at ret
          by_cases negative : c.nbytes.toInt ≤ 0
          · rw [if_pos negative] at ret
            cases ret
            refine (empty.exit (t := { s with sent := s.sent - c.nbytes }) isIn rfl).trans
              (through_false_iff ?_)
            rintro ⟨-, some⟩
            omega
          · rw [if_neg negative] at ret
            cases ret
            refine iff_of_true (empty.kept rfl) ?_
            intro _
            exact ⟨BitVec.not_lt.mp less, by omega⟩
    · have never : c.through = false := by
        unfold PipeCall.through
        rw [Bool.eq_false_iff.mpr given, Bool.false_and]
      rw [if_neg fun both => given (bufferNonch_ne_null.mp both.1)] at ret
      cases ret
      refine iff_of_true (empty.kept rfl) ?_
      split_ifs
      · exact fun yes => absurd yes given
      · intro yes
        rw [never] at yes
        cases yes

theorem Staged.exit (staged : s.Staged) (isIn : c.isIn = true) (through : c.through = true) :
    (s.exit c).Kept c ↔ s.pktBuf.top ≤ pktBufSize ∧ s.wire.1 = c.nbytes.toNat := by
  unfold PipeState.exit
  rw [if_pos ⟨through, isIn⟩, staged.copied through]
  refine and_congr_right fun _ => ?_
  constructor
  · rintro ⟨same, -⟩
    exact same.symm
  · intro same
    exact ⟨same.symm, le_of_eq same⟩

theorem utrPipeXfer_in (isIn : c.isIn = true) (empty : s.Empty)
    (other : c.bmAttributes ≠ usbEpAttrControl) (sound : ∀ r ∈ a.replies, r.Sound c.nbytes.toNat)
    (ret : s.utrPipeXfer c a = some (t, err)) : t.Kept c ↔ c.FitsIn s a := by
  unfold PipeCall.FitsIn
  rw [if_neg other]
  unfold utrPipeXfer at ret
  by_cases refused : a.utr = false
  · rw [if_pos refused] at ret
    cases ret
    refine (empty.exit isIn rfl).trans (through_false_iff ?_)
    rw [refused]
    exact fun both => Bool.false_ne_true both.1
  · rw [if_neg refused] at ret
    have granted : a.utr = true := Bool.not_eq_false _ ▸ refused
    simp only [granted, true_and]
    by_cases bulk : c.bmAttributes = usbEpAttrBulk
    · rw [if_pos bulk] at ret
      simp only [isIn, if_true] at ret
      rw [if_pos bulk]
      obtain ⟨r, found, same⟩ := Option.map_eq_some_iff.mp ret
      obtain ⟨rfl, -⟩ := Prod.mk.inj same
      have promise := sound r (List.mem_of_mem_head? found)
      simp only [found, Option.mem_def, Option.some.injEq, forall_eq']
      by_cases through : c.through = true
      · obtain ⟨staged, top⟩ := receive_pkt (r := r) empty
        have bufs : ((s.receive r .pkt).report r).bufs = (s.receive r .pkt).bufs := rfl
        simp only [through, forall_const]
        rw [bufferNonch_pkt.mpr through, kept_congr (exit_bufs bufs), staged.exit isIn through, top]
        rfl
      · obtain ⟨idle, pkt⟩ := empty.toIdle.direct (Bool.eq_false_iff.mpr through) promise
        refine iff_of_true ?_ fun yes => absurd yes through
        have bufs : ((s.receive r c.bufferNonch).report r).bufs = (s.receive r c.bufferNonch).bufs := rfl
        rw [kept_congr (exit_bufs bufs), idle.exit isIn, pkt, empty.pktBuf]
        exact ⟨Bool.eq_false_iff.mpr through, Nat.zero_le _⟩
    · rw [if_neg bulk] at ret ⊢
      by_cases int : c.bmAttributes = usbEpAttrInt
      · rw [if_pos int, isIn] at ret
        rw [if_pos int]
        obtain ⟨⟨q, code⟩, tried, same⟩ := Option.map_eq_some_iff.mp ret
        obtain ⟨rfl, -⟩ := Prod.mk.inj same
        by_cases through : c.through = true
        · rw [bufferNonch_pkt.mpr through] at tried
          obtain ⟨staged, top, final, found, wire⟩ := nuIntXfer_pkt empty.buffer tried
          simp only [through, forall_const, found, Option.mem_def, Option.some.injEq, forall_eq']
          rw [staged.exit isIn through, top, empty.pktBuf, wire]
          exact and_congr_left fun _ => and_iff_right (Nat.zero_le _)
        · obtain ⟨idle, pkt⟩ :=
            nuIntXfer_direct empty.toIdle (Bool.eq_false_iff.mpr through) sound tried
          refine iff_of_true ?_ fun yes => absurd yes through
          rw [idle.exit isIn, pkt, empty.pktBuf]
          exact ⟨Bool.eq_false_iff.mpr through, Nat.zero_le _⟩
      · rw [if_neg int] at ret ⊢
        split_ifs at ret
        · cases ret
          exact (empty.exit isIn rfl).trans (through_false_iff not_false)
        · cases ret
          exact (empty.exit (t := { s with status := .error }) isIn rfl).trans
            (through_false_iff not_false)

/-- A call keeps its bytes inside the packet buffer and hands over what was transferred exactly where
it fits. -/
theorem pipe_buffer_kept_iff (sound : ∀ r ∈ a.replies, r.Sound (c.length s))
    (ret : s.nuPipeXfer c a = some (t, err)) : t.Kept c ↔ c.Fits s a := by
  unfold PipeCall.Fits
  unfold nuPipeXfer at ret
  have empty : s.unwritten.Empty := unwritten_empty
  dsimp only at ret
  by_cases lost : c.portCtrl = false
  · rw [if_pos lost] at ret
    cases ret
    refine iff_of_true (empty.kept rfl) ?_
    intro found
    rw [lost] at found
    cases found
  · rw [if_neg lost] at ret
    have port : c.portCtrl = true := Bool.not_eq_false _ ▸ lost
    by_cases nowhere : c.portDev = false
    · rw [if_pos nowhere] at ret
      cases ret
    · rw [if_neg nowhere] at ret
      by_cases gone : s.udev = false
      · rw [if_pos (show s.unwritten.udev = false from gone)] at ret
        cases ret
        refine iff_of_true (empty.kept rfl) ?_
        intro _ found
        rw [gone] at found
        cases found
      · rw [if_neg (show ¬s.unwritten.udev = false from gone)] at ret
        have here : s.udev = true := Bool.not_eq_false _ ▸ gone
        simp only [port, here, forall_const]
        unfold PipeCall.length at sound
        generalize staged : (if c.through = true ∧ c.isIn = false then _ else s.unwritten) = q at ret
        by_cases isIn : c.isIn = true
        · have plain : q = s.unwritten := by
            rw [← staged, isIn]
            exact if_neg fun both => Bool.false_ne_true both.2.symm
          rw [plain] at ret
          rw [if_pos isIn, show c.FitsIn s a ↔ c.FitsIn s.unwritten a from Iff.rfl]
          by_cases control : c.bmAttributes = usbEpAttrControl
          · rw [if_pos control] at ret sound
            refine ctrlPipeXfer_in control isIn empty (fun data => ?_) ret
            rwa [if_neg data] at sound
          · rw [if_neg control] at ret sound
            exact utrPipeXfer_in isIn empty control sound ret
        · have out : c.isIn = false := Bool.eq_false_iff.mpr isIn
          rw [if_neg isIn]
          have bufs : t.bufs = q.bufs := by
            split_ifs at ret
            · exact ctrlPipeXfer_out out ret
            · exact utrPipeXfer_out out ret
          have idle : q.Idle := by
            rw [← staged]
            split_ifs
            · exact ⟨rfl, rfl⟩
            · exact empty.toIdle
          rw [kept_congr bufs, idle.kept, ← staged]
          by_cases through : c.through = true
          · rw [if_pos ⟨through, out⟩]
            simp only [through, forall_const]
            rw [put_top _ _ empty.pktBuf]
          · rw [if_neg fun both => through both.1, empty.pktBuf]
            exact iff_of_true (Nat.zero_le _) fun yes => absurd yes through

end PipeState

/-- An interrupt endpoint of a high-speed device, and the buffers of its pipe. -/
def intPipeState : PipeState where
  udev := true
  devNum := 1
  curConf := 1
  bEnumDone := true
  setup := ⟨0, 0, 0, 0, 0⟩
  sent := 0
  pktBuf := ⟨fun _ => 0, 0⟩
  buffer := ⟨fun _ => 0, 0⟩
  status := .ok
  wire := (0, fun _ => 0)

def intPipeCall (nbytes : U32) : PipeCall := ⟨true, true, 0x81, usbEpAttrInt, usbhPidData, true, nbytes⟩

def fullAnswer (n : Nat) : UsbAnswers := ⟨true, [⟨0, true, 0, BitVec.ofNat 32 n, n, fun _ => 0x55⟩]⟩

theorem shortRead_kept : ∃ t,
    intPipeState.nuPipeXfer (intPipeCall 64) (fullAnswer 64) = some (t, 64) ∧ t.Kept (intPipeCall 64) := by
  refine ⟨_, rfl, ?_⟩
  have sound : ∀ r ∈ (fullAnswer 64).replies, r.Sound ((intPipeCall 64).length intPipeState) := by
    intro r mem
    rw [List.mem_singleton.mp mem]
    exact ⟨by decide, fun _ _ => by decide⟩
  have tries : intTries (fullAnswer 64).replies = (fullAnswer 64).replies := rfl
  refine (PipeState.pipe_buffer_kept_iff sound rfl).mpr ?_
  intro _ _
  rw [if_pos (by decide)]
  unfold PipeCall.FitsIn
  rw [if_neg (by decide), if_neg (by decide), if_pos (by decide), tries]
  intro _
  refine ⟨rfl, ?_, ?_⟩
  · intro r mem
    rw [List.mem_singleton.mp mem]
    decide
  · intro r last
    cases last
    rfl

/-- A packet of the longest length, twice that of the packet buffer. -/
theorem longRead_outside : ∃ t,
    intPipeState.nuPipeXfer (intPipeCall 1024) (fullAnswer 1024) = some (t, 1024) ∧
      t.pktBuf.top = 1024 ∧ ¬t.Kept (intPipeCall 1024) := by
  refine ⟨_, rfl, rfl, ?_⟩
  rintro ⟨inside, -⟩
  revert inside
  decide

end NuMakerMA35
