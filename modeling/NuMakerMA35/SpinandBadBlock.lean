import NuMakerMA35.SpinandChip

namespace NuMakerMA35

open Logged SpinandPartition

def FlashCmd.Quiet (c : FlashCmd) : Prop := c.isProgram = false ∧ c.isErase = false

instance (c : FlashCmd) : Decidable c.Quiet := inferInstanceAs (Decidable (_ ∧ _))

/-- The command programs no page of the block, and does not erase it. -/
def SparesBlock (flash : SpinandFlash) (block : Nat) (c : FlashCmd) : Prop :=
  c.Quiet ∨ ∃ page, c.pageAddr = some page ∧ page / flash.val.pagePerBlock ≠ block

def MtdOp.Spares (flash : SpinandFlash) (block : Nat) : MtdOp → Prop
  | .readPage .. | .checkBlock _ => True
  | .writePage page _ _ | .movePage _ page => page.toNat / flash.val.pagePerBlock ≠ block
  | .eraseBlock other | .markBadblock other => other.toNat ≠ block
  | .eraseAll => False

section Spares

variable {chip : SpinandChip} {bus : SpinandBus} {flash : SpinandFlash} {block : Nat}
  {log : List FlashCmd}

theorem spares_of_quiet {c : FlashCmd} (quiet : c.Quiet) : SparesBlock flash block c := .inl quiet

theorem spares_harmless (c : FlashCmd) (harmless : c.pageAddr = none) : SparesBlock flash block c := by
  refine spares_of_quiet ?_
  cases c <;> first | exact ⟨rfl, rfl⟩ | cases harmless

theorem step_spares {c : FlashCmd} (spares : SparesBlock flash block c) (s : ChipState) {p : Nat}
    (own : p / flash.val.pagePerBlock = block) :
    (chip.step flash.val.pagePerBlock s log c).cells p = s.cells p := by
  cases c with
  | programExecute a2 a1 a0 =>
    obtain ⟨program, -⟩ | ⟨page, addr, other⟩ := spares
    · cases program
    · cases addr
      have away : p ≠ pageOf a2 a1 a0 := by
        rintro rfl
        exact other own
      simp only [SpinandChip.step]
      split
      · exact Function.update_of_ne away _ _
      · rfl
  | blockErase a2 a1 a0 =>
    obtain ⟨-, erase⟩ | ⟨page, addr, other⟩ := spares
    · cases erase
    · cases addr
      have away : ¬p / flash.val.pagePerBlock = pageOf a2 a1 a0 / flash.val.pagePerBlock :=
        fun same => other (same.symm.trans own)
      simp only [SpinandChip.step]
      split
      · exact if_neg away
      · rfl
  | _ => rfl

theorem after_spares {new : List FlashCmd} (spares : ∀ c ∈ new, SparesBlock flash block c) {p : Nat}
    (own : p / flash.val.pagePerBlock = block) :
    (chip.after flash.val.pagePerBlock (log ++ new)).cells p =
      (chip.after flash.val.pagePerBlock log).cells p := by
  induction new generalizing log with
  | nil => rw [List.append_nil]
  | cons c cs ih =>
    have parts : log ++ c :: cs = (log ++ [c]) ++ cs := by simp
    rw [parts, ih fun d inside => spares d (List.mem_cons_of_mem c inside), chip.after_append_one]
    exact step_spares (spares c List.mem_cons_self) _ own

theorem issues_spares_isbad (page : U32) :
    Issues (SparesBlock flash block) (spinandBlockIsbad bus flash page) :=
  issues_blockIsbad bus spares_harmless (spares_of_quiet ⟨rfl, rfl⟩)
    fun _ => spares_of_quiet ⟨rfl, rfl⟩

theorem spares_program {page : U32} (small : page.toNat < 2 ^ 24)
    (other : page.toNat / flash.val.pagePerBlock ≠ block) :
    SparesBlock flash block
      (.programExecute (addrByte2 page) (addrByte1 page) (addrByte0 page)) :=
  .inr ⟨page.toNat, by rw [FlashCmd.pageAddr, addrBytes_toNat small], other⟩

theorem spares_erase {page : U32} (small : page.toNat < 2 ^ 24)
    (other : page.toNat / flash.val.pagePerBlock ≠ block) :
    SparesBlock flash block (.blockErase (addrByte2 page) (addrByte1 page) (addrByte0 page)) :=
  .inr ⟨page.toNat, by rw [FlashCmd.pageAddr, addrBytes_toNat small], other⟩

variable {dev : SpinandPartition flash}

theorem small_of_page {page : U32} (inside : ¬dev.pageBeyond page = true) : page.toNat < 2 ^ 24 := by
  have upTo := upTo_of_page (by simpa using inside)
  have last := dev.blockEnd_lt
  omega

theorem issues_spares_eraseBlock {other : U32} (away : other.toNat ≠ block) :
    Issues (SparesBlock flash block) (dev.eraseBlock bus other) := by
  unfold eraseBlock
  split_ifs with beyond
  · exact .pure _
  obtain ⟨first, -⟩ := firstPage (upTo_of_block (by simpa using beyond))
  have last := dev.blockEnd_lt
  have upTo := @upTo_of_block _ dev _ (by simpa using beyond)
  refine .bind (issues_spares_isbad _) fun bad => ?_
  split_ifs
  · exact .pure _
  · refine issues_blockErase bus spares_harmless (spares_erase (by omega) ?_)
    rw [first, flash.geometry.1]
    omega

theorem issues_spares {op : MtdOp} (spares : op.Spares flash block) :
    Issues (SparesBlock flash block) (dev.call bus op) := by
  have read (a2 a1 a0 : BitVec 8) : SparesBlock flash block (.pageRead a2 a1 a0) :=
    spares_of_quiet ⟨rfl, rfl⟩
  cases op with
  | readPage page dataLen spareLen =>
    refine .bind ?_ fun _ => .pure _
    have part (addrH addrL : BitVec 8) (count : Nat) :
        Issues (SparesBlock flash block) (readPart bus flash addrH addrL count) := by
      unfold readPart
      split_ifs
      · exact .pure _
      · exact .issue (spares_of_quiet ⟨rfl, rfl⟩) _
    unfold readPage
    split_ifs
    · exact .pure _
    refine .bind (issues_readDataload bus spares_harmless (read _ _ _)) fun r => ?_
    split_ifs
    · exact .pure _
    refine .bind (part _ _ _) fun r => ?_
    dsimp only
    split_ifs
    · exact .pure _
    · exact .bind (part _ _ _) fun _ => .pure _
  | writePage page data spare =>
    change Issues _ (dev.writePage bus page data spare)
    unfold writePage
    split_ifs with beyond
    · exact .pure _
    have select : Issues (SparesBlock flash block) (selectDie bus flash) := by
      unfold selectDie
      split_ifs
      · exact .bind (issues_transfer bus (spares_of_quiet ⟨rfl, rfl⟩)) fun _ => .pure _
      · exact .pure _
    have load : Issues (SparesBlock flash block) (loadPage bus flash data spare) := by
      unfold loadPage
      split_ifs
      · exact issues_programDataload bus spares_harmless _ _ _ _
      · exact issues_programDataload bus spares_harmless _ _ _ _
    refine .bind select fun r => ?_
    split_ifs
    · exact .pure _
    refine .bind load fun r => ?_
    split_ifs
    · exact .pure _
    · exact issues_programExecute bus spares_harmless (spares_program (small_of_page beyond) spares)
  | movePage srcPage dstPage =>
    change Issues _ (dev.movePage bus srcPage dstPage)
    unfold movePage
    split_ifs with beyond
    · exact .pure _
    simp only [Bool.or_eq_true, not_or] at beyond
    refine .bind (issues_readDataload bus spares_harmless (read _ _ _)) fun r => ?_
    split_ifs
    · exact .pure _
    refine .bind (issues_transfer bus (spares_of_quiet ⟨rfl, rfl⟩)) fun r => ?_
    dsimp only
    split_ifs
    · exact .pure _
    · exact issues_programExecute bus spares_harmless
        (spares_program (small_of_page beyond.2) spares)
  | eraseBlock other => exact issues_spares_eraseBlock spares
  | checkBlock other =>
    change Issues _ (dev.checkBlock bus other)
    unfold checkBlock
    split_ifs
    · exact .pure _
    · exact .bind (issues_spares_isbad _) fun _ => .pure _
  | markBadblock other =>
    change Issues _ (dev.markBadblock bus other)
    unfold markBadblock
    split_ifs with beyond
    · exact .pure _
    obtain ⟨first, -⟩ := firstPage (upTo_of_block (by simpa using beyond))
    have last := dev.blockEnd_lt
    have upTo := @upTo_of_block _ dev _ (by simpa using beyond)
    have away : (other * dev.pagesPerBlock).toNat / flash.val.pagePerBlock ≠ block := by
      rw [first, flash.geometry.1, Nat.mul_div_cancel _ (by omega)]
      exact spares
    refine .bind (issues_spares_isbad _) fun bad => ?_
    split_ifs
    · exact .pure _
    · exact issues_blockMarkbad bus spares_harmless (spares_erase (by omega) away)
        (spares_program (by omega) away)
  | eraseAll => exact spares.elim

end Spares

section Effects

variable {chip : SpinandChip} {bus : SpinandBus} {flash : SpinandFlash} {log log' : List FlashCmd}

theorem wait_status_run {judge : BitVec 8 → Int} {late r : Int}
    (run : (do
      if ← spinandIsbusy bus then return late
      let sr ← spinandStatusRegisterRead bus 3
      return judge sr : Spinand Int) log = (.ok r, log')) :
    ∃ k, (r = late ∧ log' = log ++ List.replicate k .pollStatus) ∨
      (bus.ok (log ++ List.replicate k .pollStatus ++ [.readStatus 3]) = true ∧
        r = judge (bus.byte (log ++ List.replicate k .pollStatus ++ [.readStatus 3])) ∧
        log' = log ++ List.replicate k .pollStatus ++ [.readStatus 3]) := by
  obtain ⟨busy, k, waited⟩ := @spinandIsbusy_run bus log
  refine ⟨k, ?_⟩
  rw [bind_ok waited] at run
  cases busy with
  | true =>
    cases run
    exact .inl ⟨rfl, rfl⟩
  | false =>
    simp only [Bool.false_eq_true, if_false] at run
    have status := @spinandStatus_run bus (log ++ List.replicate k .pollStatus)
    by_cases ok : bus.ok (log ++ List.replicate k .pollStatus ++ [.readStatus 3]) = true
    · rw [if_pos ok] at status
      rw [bind_ok status] at run
      cases run
      exact .inr ⟨ok, rfl, rfl⟩
    · rw [if_neg ok] at status
      rw [bind_error status] at run
      cases run

theorem quiet_polls (k : Nat) : ∀ c ∈ List.replicate k FlashCmd.pollStatus, c.Quiet := by
  intro c inside
  rw [List.eq_of_mem_replicate inside]
  exact ⟨rfl, rfl⟩

theorem quiet_polls_status (k : Nat) :
    ∀ c ∈ List.replicate k FlashCmd.pollStatus ++ [.readStatus 3], c.Quiet := by
  intro c inside
  rcases List.mem_append.mp inside with poll | status
  · exact quiet_polls k c poll
  · rw [List.mem_singleton.mp status]
    exact ⟨rfl, rfl⟩

abbrev eraseOf (page : U32) : FlashCmd :=
  .blockErase (addrByte2 page) (addrByte1 page) (addrByte0 page)

abbrev programOf (page : U32) : FlashCmd :=
  .programExecute (addrByte2 page) (addrByte1 page) (addrByte0 page)

theorem after_append_quiet {new : List FlashCmd} {n : Nat} (k : Nat)
    (polls : new = List.replicate k .pollStatus ∨
      new = List.replicate k .pollStatus ++ [.readStatus 3]) :
    chip.after n (log ++ new) = chip.after n log := by
  rcases polls with rfl | rfl
  · exact after_polls k
  · rw [← List.append_assoc, chip.after_append_one]
    exact after_polls k

theorem transfer_failed {c : FlashCmd} (refused : ¬bus.ok (log ++ [c]) = true) :
    transfer bus c log = (.ok (-rtEio, bus.byte (log ++ [c])), log ++ [c]) := by
  rw [transfer_run, if_neg refused]

theorem transfer_done {c : FlashCmd} (ok : bus.ok (log ++ [c]) = true) :
    transfer bus c log = (.ok (rtEok, bus.byte (log ++ [c])), log ++ [c]) := by
  rw [transfer_run, if_pos ok]

/-- An erase that returns: the latch could not be set, or the flash was told to erase and a success
means that it did. -/
theorem blockErase_spec {page : U32} (shows : bus.Shows chip flash.val.pagePerBlock) {r : Int}
    (run : spinandBlockErase bus page log = (.ok r, log')) :
    (log' = log ++ [.writeEnable] ∧ r ≠ rtEok) ∨
      ∃ tail, log' = log ++ [.writeEnable] ++ [eraseOf page] ++ tail ∧ (∀ c ∈ tail, c.Quiet) ∧
        chip.after flash.val.pagePerBlock log' = chip.erased flash.val.pagePerBlock
          { chip.after flash.val.pagePerBlock log with writeEnabled := true }
          (log ++ [.writeEnable] ++ [eraseOf page])
          (pageOf (addrByte2 page) (addrByte1 page) (addrByte0 page)) ∧
        (r = rtEok → chip.fails (log ++ [.writeEnable] ++ [eraseOf page]) = false) := by
  have told : chip.after flash.val.pagePerBlock (log ++ [.writeEnable] ++ [eraseOf page]) =
      chip.erased flash.val.pagePerBlock
        { chip.after flash.val.pagePerBlock log with writeEnabled := true }
        (log ++ [.writeEnable] ++ [eraseOf page])
        (pageOf (addrByte2 page) (addrByte1 page) (addrByte0 page)) := by
    rw [chip.after_append_one, chip.after_append_one]
    rfl
  unfold spinandBlockErase at run
  by_cases enabled : bus.ok (log ++ [.writeEnable]) = true
  · right
    rw [bind_ok (transfer_done enabled)] at run
    dsimp only at run
    rw [if_neg (by simp)] at run
    by_cases sent : bus.ok (log ++ [.writeEnable] ++ [eraseOf page]) = true
    · rw [bind_ok (transfer_done sent)] at run
      dsimp only at run
      rw [if_neg (by simp)] at run
      obtain ⟨k, ⟨late, same⟩ | ⟨ok, judged, same⟩⟩ := wait_status_run run
      · refine ⟨_, same, quiet_polls k, ?_, ?_⟩
        · rw [same, after_append_quiet k (.inl rfl), told]
        · intro good
          rw [late] at good
          exact absurd good (by decide)
      · rw [List.append_assoc _ (List.replicate k _)] at same
        refine ⟨_, same, quiet_polls_status k, ?_, ?_⟩
        · rw [same, after_append_quiet k (.inr rfl), told]
        · intro good
          by_contra failed
          have bits := shows.status _ ok
          rw [after_polls, told] at bits
          have fails : chip.fails (log ++ [.writeEnable] ++ [eraseOf page]) = true := by
            simpa using failed
          rw [judged, bits] at good
          simp only [ChipState.failBits, SpinandChip.erased, fails] at good
          exact absurd good (by decide)
    · rw [bind_ok (transfer_failed sent)] at run
      dsimp only at run
      rw [if_pos (by decide)] at run
      cases run
      exact ⟨[], by rw [List.append_nil], by simp, told, fun good => absurd good (by decide)⟩
  · left
    rw [bind_ok (transfer_failed enabled)] at run
    dsimp only at run
    rw [if_pos (by decide)] at run
    cases run
    exact ⟨rfl, by decide⟩

theorem programExecute_spec {page : U32} {r : Int} (n : Nat)
    (run : spinandProgramExecute bus (addrByte2 page) (addrByte1 page) (addrByte0 page) log =
      (.ok r, log')) :
    ∃ tail, log' = log ++ [programOf page] ++ tail ∧ (∀ c ∈ tail, c.Quiet) ∧
      chip.after n log' =
        chip.step n (chip.after n log) (log ++ [programOf page]) (programOf page) := by
  have told : chip.after n (log ++ [programOf page]) =
      chip.step n (chip.after n log) (log ++ [programOf page]) (programOf page) :=
    chip.after_append_one n log _
  unfold spinandProgramExecute at run
  by_cases sent : bus.ok (log ++ [programOf page]) = true
  · rw [bind_ok (transfer_done sent)] at run
    dsimp only at run
    rw [if_neg (by simp)] at run
    obtain ⟨k, ⟨-, same⟩ | ⟨-, -, same⟩⟩ := wait_status_run run
    · exact ⟨_, same, quiet_polls k, by rw [same, after_append_quiet k (.inl rfl), told]⟩
    · rw [List.append_assoc _ (List.replicate k _)] at same
      exact ⟨_, same, quiet_polls_status k, by rw [same, after_append_quiet k (.inr rfl), told]⟩
  · rw [bind_ok (transfer_failed sent)] at run
    dsimp only at run
    rw [if_pos (by decide)] at run
    cases run
    exact ⟨[], by rw [List.append_nil], by simp, told⟩

theorem programDataload_spec {addrH addrL : BitVec 8} {data spare : List (BitVec 8)} (n : Nat)
    (run : spinandProgramDataload bus addrH addrL data spare log = (.ok rtEok, log')) :
    log' = log ++ [.writeEnable] ++ [.programLoad addrH addrL data spare] ∧
      chip.after n log' = { chip.after n log with
        writeEnabled := true
        cache := loadedCache (columnOf addrH addrL) (data ++ spare) } := by
  unfold spinandProgramDataload at run
  by_cases enabled : bus.ok (log ++ [.writeEnable]) = true
  · rw [bind_ok (transfer_done enabled)] at run
    dsimp only at run
    rw [if_neg (by simp), bind_ok (transfer_run _)] at run
    have same : log' = log ++ [.writeEnable] ++ [.programLoad addrH addrL data spare] :=
      (congrArg Prod.snd run).symm
    refine ⟨same, ?_⟩
    rw [same, chip.after_append_one, chip.after_append_one]
    rfl
  · rw [bind_ok (transfer_failed enabled)] at run
    dsimp only at run
    rw [if_pos (by decide)] at run
    cases run

end Effects

/-- What a failed program or erase leaves in the block is read as a bad-block marker. -/
def SpinandChip.LeftMark (chip : SpinandChip) (flash : SpinandFlash) (block : Nat)
    (log : List FlashCmd) (c : FlashCmd) : Prop :=
  chip.left log (block * 64) flash.val.pageSize ≠ 0xFF ∨
    c.isErase = true ∧ block % flash.val.pageSize = 0 ∧
      chip.left log (block * 64 + 1) flash.val.pageSize ≠ 0xFF

/-- Every program and every erase between two logs that fails leaves a marker in the block. -/
def SpinandChip.FailuresMark (chip : SpinandChip) (flash : SpinandFlash) (block : Nat)
    (log log' : List FlashCmd) : Prop :=
  AllMet (fun before c => c.isProgram = true ∨ c.isErase = true →
    chip.fails (before ++ [c]) = true → chip.LeftMark flash block (before ++ [c]) c) log log'

def SpinandChip.Erases (chip : SpinandChip) (log log' : List FlashCmd) : Prop :=
  AllMet (fun before c => c.isErase = true → chip.fails (before ++ [c]) = false) log log'

section Calls

variable {chip : SpinandChip} {bus : SpinandBus} {flash : SpinandFlash} {block : Nat}
  {log log' new : List FlashCmd} {page : U32}

theorem failuresMark_quiet (quiet : ∀ c ∈ new, c.Quiet) :
    chip.FailuresMark flash block log (log ++ new) :=
  allMet_of_forall fun c inside _ changes => by
    obtain ⟨program, erase⟩ := quiet c inside
    simp [program, erase] at changes

theorem erases_quiet (quiet : ∀ c ∈ new, c.Quiet) : chip.Erases log (log ++ new) :=
  allMet_of_forall fun c inside _ erase => by
    rw [(quiet c inside).2] at erase
    cases erase

theorem failuresMark_one {early late : List FlashCmd} {c : FlashCmd}
    (quietEarly : ∀ d ∈ early, d.Quiet) (quietLate : ∀ d ∈ late, d.Quiet)
    (changes : c.isProgram = true ∨ c.isErase = true) :
    chip.FailuresMark flash block log (log ++ early ++ [c] ++ late) ↔
      (chip.fails (log ++ early ++ [c]) = true →
        chip.LeftMark flash block (log ++ early ++ [c]) c) := by
  have first : log <+: log ++ early := List.prefix_append _ _
  have second : log ++ early <+: log ++ early ++ [c] := List.prefix_append _ _
  have third : log ++ early ++ [c] <+: log ++ early ++ [c] ++ late := List.prefix_append _ _
  unfold SpinandChip.FailuresMark
  rw [allMet_trans (first.trans second) third, allMet_trans first second, allMet_single]
  constructor
  · rintro ⟨⟨-, here⟩, -⟩
    exact here changes
  · intro here
    exact ⟨⟨failuresMark_quiet quietEarly, fun _ => here⟩, failuresMark_quiet quietLate⟩

theorem erases_one {early late : List FlashCmd} {c : FlashCmd}
    (quietEarly : ∀ d ∈ early, d.Quiet) (quietLate : ∀ d ∈ late, d.Quiet)
    (erase : c.isErase = true) :
    chip.Erases log (log ++ early ++ [c] ++ late) ↔ chip.fails (log ++ early ++ [c]) = false := by
  have first : log <+: log ++ early := List.prefix_append _ _
  have second : log ++ early <+: log ++ early ++ [c] := List.prefix_append _ _
  have third : log ++ early ++ [c] <+: log ++ early ++ [c] ++ late := List.prefix_append _ _
  unfold SpinandChip.Erases
  rw [allMet_trans (first.trans second) third, allMet_trans first second, allMet_single]
  constructor
  · rintro ⟨⟨-, here⟩, -⟩
    exact here erase
  · intro here
    exact ⟨⟨erases_quiet quietEarly, fun _ => here⟩, erases_quiet quietLate⟩

theorem isbad_quiet (bus : SpinandBus) (flash : SpinandFlash) (page : U32) (log : List FlashCmd) :
    ∃ new, (spinandBlockIsbad bus flash page log).2 = log ++ new ∧ ∀ c ∈ new, c.Quiet := by
  have harmless (c : FlashCmd) (none : c.pageAddr = none) : c.Quiet := by
    cases c <;> first | exact ⟨rfl, rfl⟩ | cases none
  exact issues_blockIsbad bus harmless ⟨rfl, rfl⟩ (fun _ => ⟨rfl, rfl⟩) log

theorem failuresMark_after_quiet (quiet : ∀ c ∈ new, c.Quiet) (rest : log ++ new <+: log') :
    chip.FailuresMark flash block log log' ↔ chip.FailuresMark flash block (log ++ new) log' := by
  have early := @failuresMark_quiet chip flash block log _ quiet
  unfold SpinandChip.FailuresMark at *
  rw [allMet_trans (List.prefix_append log new) rest]
  exact and_iff_right early

theorem erases_after_quiet (quiet : ∀ c ∈ new, c.Quiet) (rest : log ++ new <+: log') :
    chip.Erases log log' ↔ chip.Erases (log ++ new) log' := by
  have early := @erases_quiet chip log _ quiet
  unfold SpinandChip.Erases at *
  rw [allMet_trans (List.prefix_append log new) rest]
  exact and_iff_right early

theorem blockErase_grows (bus : SpinandBus) (page : U32) (log : List FlashCmd) :
    log <+: (spinandBlockErase bus page log).2 := by
  have issues : Issues (fun _ => True) (spinandBlockErase bus page) :=
    issues_blockErase bus (fun _ _ => trivial) trivial
  exact issues.grows log

theorem blockMarkbad_grows (bus : SpinandBus) (flash : SpinandFlash) (page : U32)
    (log : List FlashCmd) : log <+: (spinandBlockMarkbad bus flash page log).2 := by
  have issues : Issues (fun _ => True) (spinandBlockMarkbad bus flash page) :=
    issues_blockMarkbad bus (fun _ _ => trivial) trivial trivial
  exact issues.grows log

theorem foundBad_of_failed (shows : bus.Shows chip flash.val.pagePerBlock)
    (own : page.toNat = block * 64) (small : page.toNat < 2 ^ 24) {r : Int}
    (run : spinandBlockErase bus page log = (.ok r, log')) (fails : ¬chip.Erases log log') :
    r ≠ rtEok ∧ (chip.FoundBad flash log' (block * 64) ↔ chip.FailuresMark flash block log log') := by
  obtain ⟨perBlock, -, -⟩ := flash.geometry
  rcases blockErase_spec shows run with ⟨same, refused⟩ | ⟨tail, same, quiet, state, success⟩
  · refine absurd ?_ fails
    rw [same]
    exact erases_quiet fun c inside => by
      rw [List.mem_singleton.mp inside]
      exact ⟨rfl, rfl⟩
  · have enable : ∀ d ∈ [FlashCmd.writeEnable], d.Quiet := by
      intro d inside
      rw [List.mem_singleton.mp inside]
      exact ⟨rfl, rfl⟩
    have failed : chip.fails (log ++ [.writeEnable] ++ [eraseOf page]) = true := by
      rw [same, erases_one enable quiet rfl] at fails
      simpa using fails
    refine ⟨fun good => absurd (success good) (by rw [failed]; decide), ?_⟩
    rw [foundBad_block, same, failuresMark_one enable quiet (.inr rfl), ← same]
    have cells (p : Nat) (inside : p / 64 = block) (col : Nat) :
        (chip.after flash.val.pagePerBlock log').cells p col =
          chip.left (log ++ [.writeEnable] ++ [eraseOf page]) p col := by
      rw [state, pageOf, addrBytes_toNat small, own]
      simp only [SpinandChip.erased, perBlock]
      rw [if_pos (by omega), if_pos failed]
    unfold SpinandChip.marker SpinandChip.LeftMark
    rw [cells _ (by omega), cells _ (by omega)]
    simp only [failed, forall_const, FlashCmd.isErase, true_and]

theorem foundBad_of_failed_markbad (shows : bus.Shows chip flash.val.pagePerBlock)
    (own : page.toNat = block * 64) (small : page.toNat < 2 ^ 24) {r : Int}
    (run : spinandBlockMarkbad bus flash page log = (.ok r, log'))
    (fails : ¬chip.Erases log log') :
    chip.FoundBad flash log' (block * 64) ↔ chip.FailuresMark flash block log log' := by
  obtain ⟨r1, l1, erase, rest⟩ := bind_ok_iff.mp run
  by_cases good : r1 = rtEok
  swap
  · rw [if_pos good] at rest
    cases rest
    exact (foundBad_of_failed shows own small erase fails).2
  rw [if_neg (not_not.mpr good)] at rest
  have worked : chip.Erases log l1 := by
    by_contra failed
    exact (foundBad_of_failed shows own small erase failed).1 good
  have harmless (c : FlashCmd) (none : c.pageAddr = none) : c.isErase = false := by
    cases c <;> first | rfl | cases none
  have issues : Issues (fun c => c.isErase = false) (spinandProgramDataload bus
      (addrByte1 flash.spareColumn) (addrByte0 flash.spareColumn) [0xF0] [] >>= fun result =>
        if result ≠ rtEok then pure result
        else spinandProgramExecute bus (addrByte2 page) (addrByte1 page) (addrByte0 page)) := by
    refine .bind (issues_programDataload bus harmless _ _ _ _) fun r => ?_
    split_ifs
    · exact .pure _
    · exact issues_programExecute bus harmless rfl
  obtain ⟨new, grown, none⟩ := issues l1
  have same : log' = l1 ++ new := (congrArg Prod.snd rest).symm.trans grown
  refine absurd ?_ fails
  have start := blockErase_grows bus page log
  rw [erase] at start
  unfold SpinandChip.Erases at *
  rw [same, allMet_trans start (List.prefix_append _ _)]
  refine ⟨worked, allMet_of_forall fun c inside _ erases => ?_⟩
  rw [none c inside] at erases
  cases erases

theorem loaded_mark (flash : SpinandFlash) :
    loadedCache (columnOf (addrByte1 flash.spareColumn) (addrByte0 flash.spareColumn)) ([0xF0] ++ [])
      flash.val.pageSize = 0xF0 := by
  rw [spareColumn_bytes, loadedCache, if_neg (Nat.lt_irrefl _), Nat.sub_self]
  rfl

theorem erased_cells (own : page.toNat = block * 64) (small : page.toNat < 2 ^ 24) {s : ChipState}
    (done : chip.fails log = false) {p : Nat} (inside : p / 64 = block) (col : Nat) :
    (chip.erased flash.val.pagePerBlock s log
      (pageOf (addrByte2 page) (addrByte1 page) (addrByte0 page))).cells p col = 0xFF := by
  rw [pageOf, addrBytes_toNat small, own]
  simp only [SpinandChip.erased, flash.geometry.1]
  rw [if_pos (by omega), done]
  rfl

theorem programmed_mark (own : page.toNat = block * 64) (small : page.toNat < 2 ^ 24)
    {s : ChipState} (enabled : s.writeEnabled = true)
    (blank : ∀ p, p / 64 = block → s.cells p flash.val.pageSize = 0xFF)
    (loaded : s.cache flash.val.pageSize = 0xF0) :
    (chip.step flash.val.pagePerBlock s log (programOf page)).cells (block * 64)
        flash.val.pageSize =
      (if chip.fails log then chip.left log (block * 64) flash.val.pageSize else 0xF0) ∧
    (chip.step flash.val.pagePerBlock s log (programOf page)).cells (block * 64 + 1)
        flash.val.pageSize = 0xFF := by
  simp only [SpinandChip.step, enabled, if_true, SpinandChip.programmed]
  rw [pageOf, addrBytes_toNat small, own]
  refine ⟨?_, ?_⟩
  · rw [Function.update_self]
    split
    · rfl
    · change s.cells (block * 64) _ &&& s.cache _ = _
      rw [blank _ (by omega), loaded]
      decide
  · rw [Function.update_of_ne (by omega)]
    exact blank _ (by omega)

theorem foundBad_of_markbad (shows : bus.Shows chip flash.val.pagePerBlock)
    (own : page.toNat = block * 64) (small : page.toNat < 2 ^ 24)
    (run : spinandBlockMarkbad bus flash page log = (.ok rtEok, log')) :
    chip.FoundBad flash log' (block * 64) ↔ chip.FailuresMark flash block log log' := by
  obtain ⟨r1, l1, erase, run⟩ := bind_ok_iff.mp run
  by_cases good1 : r1 = rtEok
  swap
  · rw [if_pos good1] at run
    cases run
    exact absurd rfl good1
  rw [if_neg (not_not.mpr good1)] at run
  obtain ⟨r2, l2, load, run⟩ := bind_ok_iff.mp run
  by_cases good2 : r2 = rtEok
  swap
  · rw [if_pos good2] at run
    cases run
    exact absurd rfl good2
  rw [if_neg (not_not.mpr good2)] at run
  obtain ⟨-, refused⟩ | ⟨tail1, same1, quiet1, state1, success⟩ := blockErase_spec shows erase
  · exact absurd good1 refused
  rw [good2] at load
  obtain ⟨same2, state2⟩ := @programDataload_spec chip _ _ _ _ _ _ _ flash.val.pagePerBlock load
  obtain ⟨tail3, same3, quiet3, state3⟩ :=
    @programExecute_spec chip _ _ _ _ _ flash.val.pagePerBlock run
  have blank (p : Nat) (inside : p / 64 = block) :
      (chip.after flash.val.pagePerBlock l2).cells p flash.val.pageSize = 0xFF := by
    rw [state2]
    change (chip.after flash.val.pagePerBlock l1).cells p _ = _
    rw [state1]
    exact erased_cells own small (success good1) inside _
  have written := @programmed_mark chip _ _ (l2 ++ [programOf page]) _ own small
    (chip.after flash.val.pagePerBlock l2) (by rw [state2]) blank
    (by rw [state2]; exact loaded_mark flash)
  rw [← state3] at written
  have enable : ∀ d ∈ [FlashCmd.writeEnable], d.Quiet := by
    simp [FlashCmd.Quiet, FlashCmd.isProgram, FlashCmd.isErase]
  have loads : ∀ d ∈ [FlashCmd.writeEnable] ++ [.programLoad (addrByte1 flash.spareColumn)
      (addrByte0 flash.spareColumn) [0xF0] []], d.Quiet := by
    simp [FlashCmd.Quiet, FlashCmd.isProgram, FlashCmd.isErase]
  rw [List.append_assoc l1] at same2
  have erasing : chip.FailuresMark flash block log l1 := by
    rw [same1, failuresMark_one enable quiet1 (.inr rfl), success good1]
    simp
  have programming : chip.FailuresMark flash block l1 log' ↔
      (chip.fails (l2 ++ [programOf page]) = true →
        chip.LeftMark flash block (l2 ++ [programOf page]) (programOf page)) := by
    rw [same3, same2, failuresMark_one loads quiet3 (.inl rfl)]
  have both : chip.FailuresMark flash block log log' ↔ chip.FailuresMark flash block l1 log' := by
    have start : log <+: l1 := by rw [same1]; simp
    have rest : l1 <+: log' := by rw [same3, same2]; simp
    unfold SpinandChip.FailuresMark at *
    rw [allMet_trans start rest]
    exact and_iff_right erasing
  rw [both, programming, foundBad_block]
  unfold SpinandChip.marker SpinandChip.LeftMark
  rw [written.1, written.2]
  cases chip.fails (l2 ++ [programOf page]) with
  | false => simp
  | true => simp [FlashCmd.isErase]

end Calls

namespace SpinandPartition

variable {chip : SpinandChip} {bus : SpinandBus} {flash : SpinandFlash}
  {dev : SpinandPartition flash} {block : U32} {log log' : List FlashCmd}

/-- The block was marked bad with success, or an erase of it failed and an error was returned. -/
def Condemns (bus : SpinandBus) (chip : SpinandChip) (dev : SpinandPartition flash) (block : U32)
    (log log' : List FlashCmd) : Prop :=
  dev.markBadblock bus block log = (.ok rtEok, log') ∨
    ∃ op r, (op = .eraseBlock block ∨ op = .markBadblock block) ∧
      dev.call bus op log = (.ok r, log') ∧ r ≠ rtEok ∧ ¬chip.Erases log log'

/-- The block is reported bad and not erased, unless the flash cannot be read. -/
structure Refused (bus : SpinandBus) (dev : SpinandPartition flash) (block : U32)
    (log : List FlashCmd) : Prop where
  checked : ∀ r, (dev.checkBlock bus block log).1 = .ok r → r = -rtError
  erased : ∀ r, (dev.eraseBlock bus block log).1 = .ok r → r = -rtError
  untouched : AllMet (fun _ c => c.Quiet) log (dev.eraseBlock bus block log).2
  answered : bus.Delivers → (dev.checkBlock bus block log).1 = .ok (-rtError) ∧
    (dev.eraseBlock bus block log).1 = .ok (-rtError)

/-- A call on any partition of the flash that returned and did not touch the block. -/
def LaterCall (bus : SpinandBus) (flash : SpinandFlash) (block : Nat) (log log' : List FlashCmd) :
    Prop :=
  ∃ (dev : SpinandPartition flash) (op : MtdOp) (r : Int),
    op.Spares flash block ∧ dev.call bus op log = (.ok r, log')

def Later (bus : SpinandBus) (flash : SpinandFlash) (block : Nat) :
    List FlashCmd → List FlashCmd → Prop :=
  Relation.ReflTransGen (LaterCall bus flash block)

theorem foundBad_congr {block : Nat} (same : ∀ p, p / flash.val.pagePerBlock = block →
    (chip.after flash.val.pagePerBlock log').cells p =
      (chip.after flash.val.pagePerBlock log).cells p) :
    chip.FoundBad flash log' (block * 64) ↔ chip.FoundBad flash log (block * 64) := by
  rw [flash.geometry.1] at same
  rw [foundBad_block, foundBad_block]
  unfold SpinandChip.marker
  rw [flash.geometry.1, same _ (by omega), same _ (by omega)]

/-- Induction on the later calls: each leaves the pages of the block as they are. -/
theorem later_foundBad {block : Nat} (later : Later bus flash block log log') :
    chip.FoundBad flash log' (block * 64) ↔ chip.FoundBad flash log (block * 64) := by
  induction later with
  | refl => exact Iff.rfl
  | @tail mid last _ call ih =>
    obtain ⟨dev, op, r, spares, run⟩ := call
    rw [← ih]
    apply foundBad_congr
    intro p own
    obtain ⟨new, grown, untouched⟩ := @issues_spares bus _ _ dev _ spares _
    rw [run] at grown
    have same : last = mid ++ new := grown
    rw [same]
    exact after_spares untouched own

theorem block_inside (inside : dev.blockBeyond block = false) :
    (block * dev.pagesPerBlock).toNat = block.toNat * 64 ∧
      (block * dev.pagesPerBlock).toNat + 1 < 2 ^ 24 := by
  have last := dev.blockEnd_lt
  have upTo := upTo_of_block inside
  have first := (firstPage upTo).1
  exact ⟨first, by omega⟩

theorem checkBlock_inside (bus : SpinandBus) (inside : dev.blockBeyond block = false) :
    dev.checkBlock bus block =
      (spinandBlockIsbad bus flash (block * dev.pagesPerBlock) >>= fun isbad =>
        pure (if isbad then -rtError else rtEok)) := by
  unfold checkBlock
  rw [inside]
  rfl

theorem eraseBlock_inside (bus : SpinandBus) (inside : dev.blockBeyond block = false) :
    dev.eraseBlock bus block =
      (spinandBlockIsbad bus flash (block * dev.pagesPerBlock) >>= fun isbad =>
        if isbad then pure (-rtError)
        else spinandBlockErase bus (block * dev.pagesPerBlock)) := by
  unfold eraseBlock
  rw [inside]
  rfl

theorem markBadblock_inside (bus : SpinandBus) (inside : dev.blockBeyond block = false) :
    dev.markBadblock bus block =
      (spinandBlockIsbad bus flash (block * dev.pagesPerBlock) >>= fun isbad =>
        if isbad then pure rtEok
        else spinandBlockMarkbad bus flash (block * dev.pagesPerBlock)) := by
  unfold markBadblock
  rw [inside]
  rfl

theorem refused_of_foundBad (shows : bus.Shows chip flash.val.pagePerBlock)
    (inside : dev.blockBeyond block = false) (found : chip.FoundBad flash log (block.toNat * 64)) :
    dev.Refused bus block log := by
  obtain ⟨first, small⟩ := block_inside inside
  obtain ⟨new, grown, quiet⟩ := isbad_quiet bus flash (block * dev.pagesPerBlock) log
  have check := checkBlock_inside bus inside
  have erase := eraseBlock_inside bus inside
  cases run : spinandBlockIsbad bus flash (block * dev.pagesPerBlock) log with
  | mk result mid =>
    rw [run] at grown
    have same : mid = log ++ new := grown
    cases result with
    | error e =>
      have checked : dev.checkBlock bus block log = (.error e, mid) := by
        rw [check, bind_error run]
      have erased : dev.eraseBlock bus block log = (.error e, mid) := by
        rw [erase, bind_error run]
      refine ⟨?_, ?_, ?_, ?_⟩
      · intro r answer
        rw [checked] at answer
        cases answer
      · intro r answer
        rw [erased] at answer
        cases answer
      · rw [erased, same]
        exact allMet_of_forall fun c added _ => quiet c added
      · intro delivers
        obtain ⟨bad, mid', run'⟩ := @blockIsbad_delivers bus flash log delivers
          (block * dev.pagesPerBlock)
        rw [run] at run'
        cases run'
    | ok bad =>
      have isBad : bad = true := by
        rw [(blockIsbad_run shows small run).1, first]
        exact decide_eq_true found
      subst isBad
      have checked : dev.checkBlock bus block log = (.ok (-rtError), mid) := by
        rw [check, bind_ok run]
        rfl
      have erased : dev.eraseBlock bus block log = (.ok (-rtError), mid) := by
        rw [erase, bind_ok run]
        rfl
      refine ⟨?_, ?_, ?_, ?_⟩
      · intro r answer
        rw [checked] at answer
        exact (Except.ok.inj answer).symm
      · intro r answer
        rw [erased] at answer
        exact (Except.ok.inj answer).symm
      · rw [erased, same]
        exact allMet_of_forall fun c added _ => quiet c added
      · intro _
        rw [checked, erased]
        exact ⟨rfl, rfl⟩

theorem foundBad_of_refused (shows : bus.Shows chip flash.val.pagePerBlock)
    (delivers : bus.Delivers) (inside : dev.blockBeyond block = false)
    (refused : dev.Refused bus block log) : chip.FoundBad flash log (block.toNat * 64) := by
  obtain ⟨first, small⟩ := block_inside inside
  obtain ⟨bad, mid, run⟩ := @blockIsbad_delivers bus flash log delivers
    (block * dev.pagesPerBlock)
  have found := (blockIsbad_run shows small run).1
  have answer := (refused.answered delivers).1
  rw [checkBlock_inside bus inside, bind_ok run] at answer
  cases bad with
  | false =>
    have zero : rtEok = -rtError := Except.ok.inj answer
    exact absurd zero (by decide)
  | true =>
    rw [first] at found
    exact of_decide_eq_true found.symm

/-- What a condemning call leaves: the marker is read exactly if its failures have left one. -/
theorem Condemns.foundBad (shows : bus.Shows chip flash.val.pagePerBlock)
    (condemned : dev.Condemns bus chip block log log') :
    dev.blockBeyond block = false ∧
      (chip.FoundBad flash log' (block.toNat * 64) ↔
        chip.FailuresMark flash block.toNat log log') := by
  obtain ⟨new, grown, quiet⟩ := isbad_quiet bus flash (block * dev.pagesPerBlock) log
  have quietMid {bad : Bool} {mid : List FlashCmd}
      (check : spinandBlockIsbad bus flash (block * dev.pagesPerBlock) log = (.ok bad, mid)) :
      mid = log ++ new := by
    rw [check] at grown
    exact grown
  rcases condemned with marked | ⟨op, r, rfl | rfl, run, wrong, failed⟩
  · have inside : dev.blockBeyond block = false := by
      by_contra beyond
      rw [markBadblock, if_pos (by simpa using beyond)] at marked
      cases marked
    refine ⟨inside, ?_⟩
    obtain ⟨first, small⟩ := block_inside inside
    rw [markBadblock_inside bus inside] at marked
    obtain ⟨bad, mid, check, rest⟩ := bind_ok_iff.mp marked
    have same := quietMid check
    obtain ⟨found, cells⟩ := blockIsbad_run shows small check
    cases bad with
    | true =>
      have kept := @foundBad_congr chip flash log mid block.toNat fun p _ => by rw [cells]
      cases rest
      rw [first] at found
      rw [kept, same]
      exact iff_of_true (of_decide_eq_true found.symm) (failuresMark_quiet quiet)
    | false =>
      have more := blockMarkbad_grows bus flash (block * dev.pagesPerBlock) mid
      rw [show spinandBlockMarkbad bus flash (block * dev.pagesPerBlock) mid = (.ok rtEok, log')
        from rest] at more
      subst same
      rw [foundBad_of_markbad shows first (by omega) rest, failuresMark_after_quiet quiet more]
  · have inside : dev.blockBeyond block = false := by
      by_contra beyond
      rw [call, eraseBlock, if_pos (by simpa using beyond)] at run
      cases run
      exact failed .refl
    refine ⟨inside, ?_⟩
    obtain ⟨first, small⟩ := block_inside inside
    rw [call, eraseBlock_inside bus inside] at run
    obtain ⟨bad, mid, check, rest⟩ := bind_ok_iff.mp run
    have same := quietMid check
    cases bad with
    | true =>
      cases rest
      rw [same] at failed
      exact absurd (erases_quiet quiet) failed
    | false =>
      have more := blockErase_grows bus (block * dev.pagesPerBlock) mid
      rw [show spinandBlockErase bus (block * dev.pagesPerBlock) mid = (.ok r, log')
        from rest] at more
      subst same
      rw [erases_after_quiet quiet more] at failed
      rw [(foundBad_of_failed shows first (by omega) rest failed).2,
        failuresMark_after_quiet quiet more]
  · have inside : dev.blockBeyond block = false := by
      by_contra beyond
      rw [call, markBadblock, if_pos (by simpa using beyond)] at run
      cases run
      exact failed .refl
    refine ⟨inside, ?_⟩
    obtain ⟨first, small⟩ := block_inside inside
    rw [call, markBadblock_inside bus inside] at run
    obtain ⟨bad, mid, check, rest⟩ := bind_ok_iff.mp run
    have same := quietMid check
    cases bad with
    | true =>
      cases rest
      rw [same] at failed
      exact absurd (erases_quiet quiet) failed
    | false =>
      have more := blockMarkbad_grows bus flash (block * dev.pagesPerBlock) mid
      rw [show spinandBlockMarkbad bus flash (block * dev.pagesPerBlock) mid = (.ok r, log')
        from rest] at more
      subst same
      rw [erases_after_quiet quiet more] at failed
      rw [foundBad_of_failed_markbad shows first (by omega) rest failed,
        failuresMark_after_quiet quiet more]

/-- Once condemned, the block is refused for good exactly if every failed program and erase of the
condemning call has left a marker; that is enough even where reads may fail. -/
theorem bad_block_remembered_iff (shows : bus.Shows chip flash.val.pagePerBlock)
    (condemned : dev.Condemns bus chip block log log') :
    (bus.Delivers →
      ((∀ log'', Later bus flash block.toNat log' log'' → dev.Refused bus block log'') ↔
        chip.FailuresMark flash block.toNat log log')) ∧
    (chip.FailuresMark flash block.toNat log log' →
      ∀ log'', Later bus flash block.toNat log' log'' → dev.Refused bus block log'') := by
  obtain ⟨inside, found⟩ := condemned.foundBad shows
  have kept (marked : chip.FailuresMark flash block.toNat log log') :
      ∀ log'', Later bus flash block.toNat log' log'' → dev.Refused bus block log'' := by
    intro log'' later
    exact refused_of_foundBad shows inside ((later_foundBad later).mpr (found.mpr marked))
  refine ⟨fun delivers => ⟨fun all => ?_, kept⟩, kept⟩
  exact found.mp (foundBad_of_refused shows delivers inside (all log' .refl))

def blankChip : SpinandChip where
  start := ⟨fun _ _ => 0xFF, fun _ => 0xFF, false, false, false⟩
  fails := fun _ => false
  left := fun _ _ _ => 0xFF

theorem marked_block_remembered :
    ∃ log', wholeFlash.Condemns (blankChip.bus 64) blankChip 1 [] log' ∧
      ((blankChip.bus 64).Delivers →
        ((∀ log'', Later (blankChip.bus 64) firstFlash 1 log' log'' →
          wholeFlash.Refused (blankChip.bus 64) 1 log'') ↔
          blankChip.FailuresMark firstFlash 1 [] log')) ∧
      (blankChip.FailuresMark firstFlash 1 [] log' →
        ∀ log'', Later (blankChip.bus 64) firstFlash 1 log' log'' →
          wholeFlash.Refused (blankChip.bus 64) 1 log'') :=
  ⟨_, .inl rfl, bad_block_remembered_iff (blankChip.bus_shows 64)
    (show wholeFlash.Condemns (blankChip.bus 64) blankChip 1 [] _ from .inl rfl)⟩

/-- A flash of ones on which every operation fails and changes nothing. -/
def stuckChip : SpinandChip := { blankChip with fails := fun _ => true }

/-- The erase of block 1 fails and says so; the block is still taken for good. -/
theorem failed_erase_forgotten :
    ∃ log', wholeFlash.call (stuckChip.bus 64) (.eraseBlock 1) [] = (.ok (-rtError), log') ∧
      wholeFlash.Condemns (stuckChip.bus 64) stuckChip 1 [] log' ∧
      (wholeFlash.checkBlock (stuckChip.bus 64) 1 log').1 = .ok rtEok ∧
      ¬∀ log'', Later (stuckChip.bus 64) firstFlash 1 log' log'' →
        wholeFlash.Refused (stuckChip.bus 64) 1 log'' := by
  have run : wholeFlash.call (stuckChip.bus 64) (.eraseBlock 1) [] = (.ok (-rtError),
      [.pageRead 0 0 64, .pollStatus, .readStatus 3, .normalRead 8 0, .writeEnable,
        .blockErase 0 0 64, .pollStatus, .readStatus 3]) := rfl
  refine ⟨_, run, .inr ⟨.eraseBlock 1, -rtError, .inl rfl, run, by decide, ?_⟩, rfl, ?_⟩
  · intro erases
    have failed := erases [.pageRead 0 0 64, .pollStatus, .readStatus 3, .normalRead 8 0,
      .writeEnable] (.blockErase 0 0 64) ⟨List.nil_prefix, ⟨[.pollStatus, .readStatus 3], rfl⟩,
        by simp⟩ rfl
    cases failed
  · intro all
    exact absurd ((all _ .refl).checked rtEok rfl) (by decide)

end SpinandPartition

end NuMakerMA35
