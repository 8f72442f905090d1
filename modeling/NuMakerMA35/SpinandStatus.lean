import NuMakerMA35.SpinandIsolation

namespace NuMakerMA35

open Logged

def FlashCmd.isProgram : FlashCmd → Bool
  | .programExecute .. => true
  | _ => false

def FlashCmd.isErase : FlashCmd → Bool
  | .blockErase .. => true
  | _ => false

/-- The operation the status register speaks of: the last command that is no poll. -/
def lastOp (log : List FlashCmd) : Option FlashCmd :=
  log.foldl (fun last c => if c = .pollStatus then last else some c) none

@[simp] theorem lastOp_append_one (log : List FlashCmd) (c : FlashCmd) :
    lastOp (log ++ [c]) = if c = .pollStatus then lastOp log else some c := by
  simp [lastOp, List.foldl_append]

/-- On the way from `log` to `log'` the flash was asked for its status after the program or erase
operation `c`, and answered `sr`. -/
def StatusSeen (bus : SpinandBus) (log log' : List FlashCmd) (c : FlashCmd) (sr : BitVec 8) : Prop :=
  ∃ before, Met log log' (before ++ [.readStatus 3]) ∧ lastOp before = some c ∧
    (c.isProgram = true ∨ c.isErase = true) ∧
    bus.ok (before ++ [.readStatus 3]) = true ∧ bus.byte (before ++ [.readStatus 3]) = sr

/-- `m` only adds to the log, and whatever status is seen while it runs its result is as `R` says. -/
def Tells {α : Type} (bus : SpinandBus) (m : Spinand α) (log : List FlashCmd)
    (R : Except SpinandFault α → FlashCmd → BitVec 8 → Prop) : Prop :=
  log <+: (m log).2 ∧ ∀ c sr, StatusSeen bus log (m log).2 c sr → R (m log).1 c sr

/-- No status of a program or an erase is seen while `m` runs. -/
def Silent {α : Type} (bus : SpinandBus) (m : Spinand α) (log : List FlashCmd) : Prop :=
  Tells bus m log fun _ _ _ => False

section Tells

variable {α β : Type} {bus : SpinandBus} {m : Spinand α} {f : α → Spinand β} {log : List FlashCmd}
  {R : Except SpinandFault α → FlashCmd → BitVec 8 → Prop}
  {R' : Except SpinandFault β → FlashCmd → BitVec 8 → Prop}

theorem Tells.pure (a : α) : Tells bus (pure a) log R := by
  refine ⟨List.prefix_refl _, ?_⟩
  rintro c sr ⟨before, met, -⟩
  exact met.none.elim

theorem Tells.fail (e : SpinandFault) : Tells bus (Logged.fail e) log R := by
  refine ⟨List.prefix_refl _, ?_⟩
  rintro c sr ⟨before, met, -⟩
  exact met.none.elim

theorem Tells.bind (first : Tells bus m log R)
    (stops : ∀ e c sr, R (.error e) c sr → R' (.error e) c sr)
    (rest : ∀ a mid, m log = (.ok a, mid) → Tells bus (f a) mid R' ∧
      ∀ c sr, R (.ok a) c sr → R' (f a mid).1 c sr) : Tells bus (m >>= f) log R' := by
  obtain ⟨grows, told⟩ := first
  cases run : m log with
  | mk result mid =>
    rw [run] at grows told
    cases result with
    | error e =>
      rw [Tells, bind_error run]
      exact ⟨grows, fun c sr seen => stops e c sr (told c sr seen)⟩
    | ok a =>
      obtain ⟨⟨growsMore, toldMore⟩, carried⟩ := rest a mid run
      rw [Tells, bind_ok run]
      refine ⟨grows.trans growsMore, ?_⟩
      rintro c sr ⟨before, met, told'⟩
      rcases met.split growsMore with inFirst | inRest
      · exact carried c sr (told c sr ⟨before, inFirst, told'⟩)
      · exact toldMore c sr ⟨before, inRest, told'⟩

theorem Silent.bind (first : Silent bus m log)
    (rest : ∀ a mid, m log = (.ok a, mid) → Tells bus (f a) mid R') : Tells bus (m >>= f) log R' :=
  Tells.bind first (fun _ _ _ => False.elim) fun a mid run => ⟨rest a mid run, fun _ _ => False.elim⟩

end Tells

section Commands

variable {bus : SpinandBus} {log : List FlashCmd}

theorem transfer_run (c : FlashCmd) : transfer bus c log =
    (.ok (if bus.ok (log ++ [c]) then rtEok else -rtEio, bus.byte (log ++ [c])), log ++ [c]) := rfl

theorem isbusyLoop_run (n : Nat) : ∀ log : List FlashCmd, ∃ busy k,
    isbusyLoop bus n log = (.ok busy, log ++ List.replicate k .pollStatus) := by
  induction n with
  | zero =>
    intro log
    exact ⟨true, 1, rfl⟩
  | succ n ih =>
    intro log
    have run := @transfer_run bus log .pollStatus
    unfold isbusyLoop
    rw [bind_ok run]
    generalize (if bus.ok (log ++ [.pollStatus]) then rtEok else -rtEio) = result
    dsimp only
    split_ifs
    · exact ⟨true, 1, rfl⟩
    · exact ⟨false, 1, rfl⟩
    · obtain ⟨busy, k, rest⟩ := ih (log ++ [.pollStatus])
      refine ⟨busy, k + 1, ?_⟩
      rw [rest, List.append_assoc]
      rfl

theorem spinandIsbusy_run : ∃ busy k,
    spinandIsbusy bus log = (.ok busy, log ++ List.replicate k .pollStatus) :=
  isbusyLoop_run _ log

theorem lastOp_polls (k : Nat) : lastOp (log ++ List.replicate k .pollStatus) = lastOp log := by
  induction k with
  | zero => simp
  | succ k ih =>
    rw [List.replicate_succ', ← List.append_assoc, lastOp_append_one, if_pos rfl, ih]

theorem statusSeen_single {c : FlashCmd} {op : FlashCmd} {sr : BitVec 8} (other : c ≠ .readStatus 3) :
    ¬StatusSeen bus log (log ++ [c]) op sr := by
  rintro ⟨before, met, -⟩
  have same := met.single
  exact other (by simpa using (List.append_inj_right' same rfl).symm)

theorem statusSeen_polls (k : Nat) : ∀ {log : List FlashCmd} {op : FlashCmd} {sr : BitVec 8},
    ¬StatusSeen bus log (log ++ List.replicate k .pollStatus) op sr := by
  induction k with
  | zero =>
    rintro log op sr ⟨before, met, -⟩
    exact (Met.none (by simpa using met)).elim
  | succ k ih =>
    rintro log op sr ⟨before, met, told⟩
    have parts : log ++ List.replicate (k + 1) .pollStatus =
        (log ++ [.pollStatus]) ++ List.replicate k .pollStatus := by
      rw [List.append_assoc]
      rfl
    rw [parts] at met
    rcases met.split (List.prefix_append _ _) with first | rest
    · exact statusSeen_single (by simp) ⟨before, first, told⟩
    · exact ih ⟨before, rest, told⟩

theorem silent_transfer {c : FlashCmd} (other : c ≠ .readStatus 3) :
    Silent bus (transfer bus c) log :=
  ⟨List.prefix_append _ _, fun _ _ seen => statusSeen_single other seen⟩

theorem silent_isbusy : Silent bus (spinandIsbusy bus) log := by
  obtain ⟨busy, k, run⟩ := @spinandIsbusy_run bus log
  unfold Silent Tells
  rw [run]
  exact ⟨List.prefix_append _ _, fun _ _ seen => statusSeen_polls k seen⟩

theorem isbusy_lastOp {busy : Bool} {mid : List FlashCmd}
    (run : spinandIsbusy bus log = (.ok busy, mid)) : lastOp mid = lastOp log := by
  obtain ⟨busy', k, run'⟩ := @spinandIsbusy_run bus log
  rw [run] at run'
  cases run'
  exact lastOp_polls k

theorem tells_status : Tells bus (spinandStatusRegisterRead bus 3) log fun r c sr =>
    lastOp log = some c ∧ (c.isProgram = true ∨ c.isErase = true) ∧ r = .ok sr := by
  have run : spinandStatusRegisterRead bus 3 log =
      (if bus.ok (log ++ [.readStatus 3]) then .ok (bus.byte (log ++ [.readStatus 3]))
        else .error .assertion, log ++ [.readStatus 3]) := by
    unfold spinandStatusRegisterRead
    rw [bind_ok (transfer_run _)]
    dsimp only
    split_ifs <;> first | rfl | contradiction
  unfold Tells
  rw [run]
  refine ⟨List.prefix_append _ _, ?_⟩
  rintro c sr ⟨before, met, last, changes, ok, byte⟩
  have here := List.append_inj_left' met.single rfl
  subst here
  rw [ok, if_pos rfl, byte]
  exact ⟨last, changes, rfl⟩

theorem silent_status {c : FlashCmd} (last : lastOp log = some c) (program : c.isProgram = false)
    (erase : c.isErase = false) : Silent bus (spinandStatusRegisterRead bus 3) log := by
  obtain ⟨grows, told⟩ := @tells_status bus log
  refine ⟨grows, ?_⟩
  intro op sr seen
  obtain ⟨last', changes, -⟩ := told op sr seen
  rw [last] at last'
  cases last'
  simp [program, erase] at changes

/-- What a call does with the status it sees: any fail bit after an erase is an error, and after a
program the two bits are compared with one. -/
structure StatusUsed (r : Except SpinandFault Int) (c : FlashCmd) (sr : BitVec 8) : Prop where
  erase : c.isErase = true → sr &&& 0x0C ≠ 0 → r = .ok (-rtError)
  program : c.isProgram = true →
    r = .ok (if (sr &&& 0x0C) >>> 2 = 1 then -rtMtdEio else rtEok)

theorem shifted_fail_bits {sr : BitVec 8} : (sr &&& 0x0C) >>> 2 ≠ 0 ↔ sr &&& 0x0C ≠ 0 := by
  revert sr
  decide

theorem tells_programExecute (a2 a1 a0 : BitVec 8) :
    Tells bus (spinandProgramExecute bus a2 a1 a0) log StatusUsed := by
  refine (silent_transfer (by simp)).bind ?_
  rintro r mid run
  have last : lastOp mid = some (.programExecute a2 a1 a0) := by
    rw [transfer_run] at run
    cases run
    simp
  generalize r.1 = result
  dsimp only
  split_ifs with failed
  · exact .pure _
  refine silent_isbusy.bind ?_
  intro busy mid' run'
  rw [← isbusy_lastOp run'] at last
  split_ifs
  · exact .pure _
  refine tells_status.bind (fun _ _ _ told => by simp at told) ?_
  intro sr mid'' run''
  refine ⟨.pure _, ?_⟩
  rintro c sr' ⟨last', -, same⟩
  rw [last] at last'
  cases last'
  cases same
  refine ⟨fun erase => by simp [FlashCmd.isErase] at erase, fun _ => ?_⟩
  rw [not_not.mp failed]
  rfl

/-- The status of an erase, and what the erase makes of it. -/
def EraseStatus (r : Except SpinandFault Int) (c : FlashCmd) (sr : BitVec 8) : Prop :=
  c.isErase = true ∧ c.isProgram = false ∧ (sr &&& 0x0C ≠ 0 → r = .ok (-rtError))

theorem EraseStatus.used {r : Except SpinandFault Int} {c : FlashCmd} {sr : BitVec 8}
    (h : EraseStatus r c sr) : StatusUsed r c sr where
  erase := fun _ failed => h.2.2 failed
  program := fun program => by simp [h.2.1] at program

theorem tells_blockErase (page : U32) : Tells bus (spinandBlockErase bus page) log EraseStatus := by
  refine (silent_transfer (by simp)).bind ?_
  rintro r mid -
  generalize r.1 = enabled
  dsimp only
  split_ifs
  · exact .pure _
  refine (silent_transfer (by simp)).bind ?_
  rintro r mid' run
  have last : lastOp mid' =
      some (.blockErase (addrByte2 page) (addrByte1 page) (addrByte0 page)) := by
    rw [transfer_run] at run
    cases run
    simp
  generalize r.1 = result
  split_ifs
  · exact .pure _
  refine silent_isbusy.bind ?_
  intro busy mid'' run'
  rw [← isbusy_lastOp run'] at last
  split_ifs
  · exact .pure _
  refine tells_status.bind (fun _ _ _ told => by simp at told) ?_
  intro sr mid''' run''
  refine ⟨.pure _, ?_⟩
  rintro c sr' ⟨last', -, same⟩
  rw [last] at last'
  cases last'
  cases same
  refine ⟨rfl, rfl, fun failed => ?_⟩
  rw [if_pos (shifted_fail_bits.mpr failed)]
  rfl

theorem silent_readDataload (a2 a1 a0 : BitVec 8) :
    Silent bus (spinandReadDataload bus a2 a1 a0) log := by
  refine (silent_transfer (by simp)).bind ?_
  rintro r mid run
  have last : lastOp mid = some (.pageRead a2 a1 a0) := by
    rw [transfer_run] at run
    cases run
    simp
  generalize r.1 = result
  dsimp only
  split_ifs
  · exact .pure _
  refine silent_isbusy.bind ?_
  intro busy mid' run'
  rw [← isbusy_lastOp run'] at last
  split_ifs
  · exact .pure _
  exact (silent_status last rfl rfl).bind fun _ _ _ => .pure _

theorem silent_pageIsbad (flash : SpinandFlash) (page : U32) :
    Silent bus (spinandPageIsbad bus flash page) log := by
  refine (silent_readDataload _ _ _).bind ?_
  intro result mid _
  split_ifs
  · exact .fail _
  refine (silent_transfer (by simp)).bind ?_
  intro r mid' _
  dsimp only
  split
  · exact .fail _
  · exact .pure _

theorem silent_blockIsbad (flash : SpinandFlash) (page : U32) :
    Silent bus (spinandBlockIsbad bus flash page) log := by
  refine (silent_pageIsbad flash page).bind ?_
  intro bad mid _
  split_ifs
  · exact .pure _
  · exact silent_pageIsbad flash (page + 1)
  · exact .pure _

theorem silent_programDataload (addrH addrL : BitVec 8) (data spare : List (BitVec 8)) :
    Silent bus (spinandProgramDataload bus addrH addrL data spare) log := by
  refine (silent_transfer (by simp)).bind ?_
  intro r mid _
  dsimp only
  split
  · exact .pure _
  · exact (silent_transfer (by simp)).bind fun _ _ _ => .pure _

theorem tells_blockMarkbad (flash : SpinandFlash) (page : U32) :
    Tells bus (spinandBlockMarkbad bus flash page) log StatusUsed := by
  refine (tells_blockErase page).bind (fun _ _ _ => EraseStatus.used) ?_
  intro result mid _
  constructor
  · split_ifs
    · exact .pure _
    · refine (silent_programDataload _ _ _ _).bind ?_
      intro loaded mid' _
      split_ifs
      · exact .pure _
      · exact tells_programExecute _ _ _
  · rintro c sr ⟨erase, program, failed⟩
    refine EraseStatus.used ⟨erase, program, fun bits => ?_⟩
    have same : result = -rtError := Except.ok.inj (failed bits)
    rw [same]
    rfl

end Commands

def MtdOp.changes : MtdOp → Bool
  | .writePage .. | .movePage .. | .eraseBlock .. | .markBadblock .. => true
  | _ => false

namespace SpinandPartition

variable {bus : SpinandBus} {flash : SpinandFlash} {dev : SpinandPartition flash}
  {log : List FlashCmd}

theorem tells_writePage (page : U32) (data spare : List (BitVec 8)) :
    Tells bus (dev.writePage bus page data spare) log StatusUsed := by
  unfold writePage
  split_ifs
  · exact .pure _
  have select : Silent bus (selectDie bus flash) log := by
    unfold selectDie
    split_ifs
    · exact (silent_transfer (by simp)).bind fun _ _ _ => .pure _
    · exact .pure _
  refine select.bind ?_
  intro selected mid _
  split_ifs
  · exact .pure _
  have load : Silent bus (loadPage bus flash data spare) mid := by
    unfold loadPage
    split_ifs
    · exact silent_programDataload _ _ _ _
    · exact silent_programDataload _ _ _ _
  refine load.bind ?_
  intro loaded mid' _
  split_ifs
  · exact .pure _
  · exact tells_programExecute _ _ _

theorem tells_movePage (srcPage dstPage : U32) :
    Tells bus (dev.movePage bus srcPage dstPage) log StatusUsed := by
  unfold movePage
  split_ifs
  · exact .pure _
  refine (silent_readDataload _ _ _).bind ?_
  intro result mid _
  split_ifs
  · exact .pure _
  refine (silent_transfer (by simp)).bind ?_
  intro r mid' _
  dsimp only
  split
  · exact .pure _
  · exact tells_programExecute _ _ _

theorem tells_eraseBlock (block : U32) :
    Tells bus (dev.eraseBlock bus block) log StatusUsed := by
  unfold eraseBlock
  split_ifs
  · exact .pure _
  refine (silent_blockIsbad flash _).bind ?_
  intro bad mid _
  split_ifs
  · exact .pure _
  · obtain ⟨grows, told⟩ := @tells_blockErase bus mid (block * dev.pagesPerBlock)
    exact ⟨grows, fun c sr seen => (told c sr seen).used⟩

theorem tells_markBadblock (block : U32) :
    Tells bus (dev.markBadblock bus block) log StatusUsed := by
  unfold markBadblock
  split_ifs
  · exact .pure _
  refine (silent_blockIsbad flash _).bind ?_
  intro bad mid _
  split_ifs
  · exact .pure _
  · exact tells_blockMarkbad flash _

theorem tells_call {op : MtdOp} (changes : op.changes = true) :
    Tells bus (dev.call bus op) log StatusUsed := by
  cases op with
  | writePage page data spare => exact tells_writePage page data spare
  | movePage srcPage dstPage => exact tells_movePage srcPage dstPage
  | eraseBlock block => exact tells_eraseBlock block
  | markBadblock block => exact tells_markBadblock block
  | readPage page dataLen spareLen => cases changes
  | checkBlock block => cases changes
  | eraseAll => cases changes

def FailReported (bus : SpinandBus) (dev : SpinandPartition flash) (op : MtdOp)
    (log : List FlashCmd) : Prop :=
  ∀ c sr, StatusSeen bus log (dev.call bus op log).2 c sr → sr &&& 0x0C ≠ 0 →
    ∃ r, (dev.call bus op log).1 = .ok r ∧ r ≠ rtEok

theorem program_fail_missed {sr : BitVec 8} (failed : sr &&& 0x08 ≠ 0) :
    (sr &&& 0x0C) >>> 2 ≠ 1 ∧ sr &&& 0x0C ≠ 0 := by
  revert sr
  decide

theorem erase_fail_noticed {sr : BitVec 8} (clear : sr &&& 0x08 = 0) (failed : sr &&& 0x0C ≠ 0) :
    (sr &&& 0x0C) >>> 2 = 1 := by
  revert sr
  decide

theorem fail_reported_iff {op : MtdOp} (changes : op.changes = true) (bus : SpinandBus)
    (dev : SpinandPartition flash) (log : List FlashCmd) :
    dev.FailReported bus op log ↔
      ∀ c sr, StatusSeen bus log (dev.call bus op log).2 c sr → c.isProgram = true →
        sr &&& 0x08 = 0 := by
  obtain ⟨-, told⟩ := @tells_call bus flash dev log op changes
  constructor
  · intro reported c sr seen program
    by_contra failed
    obtain ⟨other, bits⟩ := program_fail_missed failed
    obtain ⟨r, result, error⟩ := reported c sr seen bits
    have used := (told c sr seen).program program
    rw [if_neg other, result] at used
    exact error (Except.ok.inj used)
  · intro clear c sr seen bits
    have used := told c sr seen
    obtain ⟨before, met, last, program | erase, answered⟩ := seen
    · have noticed := erase_fail_noticed
        (clear c sr ⟨before, met, last, .inl program, answered⟩ program) bits
      refine ⟨-rtMtdEio, ?_, by decide⟩
      rw [used.program program, if_pos noticed]
    · exact ⟨-rtError, used.erase erase bits, by decide⟩

def firstFlash : SpinandFlash := ⟨⟨0xEFAA21, 2048, 64, 0x6b, 1024, 64, false⟩, by decide⟩

def wholeFlash : SpinandPartition firstFlash := ⟨0, 1023, 1024, by decide, by decide⟩

/-- A bus on which every block reads good and every status shows a failed erase. -/
def eraseFails : SpinandBus where
  ok _ := true
  byte log :=
    match log.getLast? with
    | some (.normalRead ..) => 0xFF
    | some (.readStatus _) => 0x04
    | _ => 0
  data _ := []
  polls _ := 1

theorem fail_reported_erase :
    (wholeFlash.call eraseFails (.eraseBlock 1) []).1 = .ok (-rtError) ∧
      StatusSeen eraseFails [] (wholeFlash.call eraseFails (.eraseBlock 1) []).2
        (.blockErase 0 0 64) 0x04 ∧
      wholeFlash.FailReported eraseFails (.eraseBlock 1) [] := by
  have run : wholeFlash.call eraseFails (.eraseBlock 1) [] =
      (.ok (-rtError), [.pageRead 0 0 64, .pollStatus, .readStatus 3, .normalRead 8 0,
        .writeEnable, .blockErase 0 0 64, .pollStatus, .readStatus 3]) := rfl
  refine ⟨by rw [run], ?_, (fail_reported_iff rfl eraseFails wholeFlash []).mpr ?_⟩
  · rw [run]
    refine ⟨[.pageRead 0 0 64, .pollStatus, .readStatus 3, .normalRead 8 0, .writeEnable,
      .blockErase 0 0 64, .pollStatus], ⟨List.nil_prefix, List.prefix_refl _, by simp⟩, rfl,
      .inr rfl, rfl, rfl⟩
  · rintro c sr ⟨before, -, -, -, -, rfl⟩ _
    simp [eraseFails]

def worn : SpinandBus := ⟨fun _ => true, fun _ => 0x08, fun _ => [], fun _ => 1⟩

/-- Page 0 is written, the flash says the program failed, and the write is a success. -/
theorem program_fail_unreported :
    (wholeFlash.call worn (.writePage 0 [0x55] []) []).1 = .ok rtEok ∧
      StatusSeen worn [] (wholeFlash.call worn (.writePage 0 [0x55] []) []).2
        (.programExecute 0 0 0) 0x08 ∧
      ¬wholeFlash.FailReported worn (.writePage 0 [0x55] []) [] := by
  have run : wholeFlash.call worn (.writePage 0 [0x55] []) [] =
      (.ok rtEok, [.writeEnable, .programLoad 0 0 [0x55] [], .programExecute 0 0 0, .pollStatus,
        .readStatus 3]) := rfl
  have seen : StatusSeen worn [] (wholeFlash.call worn (.writePage 0 [0x55] []) []).2
      (.programExecute 0 0 0) 0x08 := by
    rw [run]
    refine ⟨[.writeEnable, .programLoad 0 0 [0x55] [], .programExecute 0 0 0, .pollStatus],
      ⟨List.nil_prefix, List.prefix_refl _, by simp⟩, rfl, .inl rfl, rfl, rfl⟩
  refine ⟨by rw [run], seen, ?_⟩
  intro reported
  obtain ⟨r, result, error⟩ := reported _ _ seen (by decide)
  rw [run] at result
  exact error (Except.ok.inj result).symm

end SpinandPartition

end NuMakerMA35
