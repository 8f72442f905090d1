import NuMakerMA35.BitUtil
import NuMakerMA35.Logged

namespace NuMakerMA35

open Logged

inductive ReadbackCmd
  | check (block : Nat)
  | read (page : Nat)
  | write (data : List (BitVec 8))
deriving DecidableEq, Repr

/-- The run is at the exit label, or has not come to its end so far. -/
inductive ReadbackExit
  | failed
  | running
deriving DecidableEq, Repr

abbrev Readback : Type → Type := Logged ReadbackExit ReadbackCmd

/-- The fields of `struct rt_mtd_nand_device` that are read, what the pages hold, the good blocks of
the flash, and whether a page read or a file write, given all before it, succeeds. Pages and blocks
are counted in 32 bits. -/
structure MtdPartition where
  pageSize : BitVec 16
  pagesPerBlock : U32
  blockTotal : BitVec 16
  blockStart : U32
  blocksFit : blockStart.toNat + blockTotal.toNat ≤ 2 ^ 32
  pagesFit : (blockStart.toNat + blockTotal.toNat) * pagesPerBlock.toNat ≤ 2 ^ 32
  page : Nat → List (BitVec 8)
  good : Nat → Bool
  does : List ReadbackCmd → Bool

namespace MtdPartition

variable (dev : MtdPartition)

section Code

def transfer (c : ReadbackCmd) : Readback Unit := do
  let done ← issue c dev.does
  if done then pure () else fail .failed

def checkBlock (block : Nat) : Readback Bool := issue (.check block) fun _ => dev.good block

/-- There is a file if `fd` is not negative. -/
def writeFile (fd : Int) (data : List (BitVec 8)) : Readback Unit :=
  if 0 ≤ fd then dev.transfer (.write data) else pure ()

def readPages (fd : Int) (pageOff : Nat) : Nat → Nat → Readback Unit
  | 0, _ => pure ()
  | n + 1, pageIdx => do
    let page := (pageOff + pageIdx) % 2 ^ 32
    dev.transfer (.read page)
    dev.writeFile fd (dev.page page)
    readPages fd pageOff n (pageIdx + 1)

def readBlocks (fd : Int) : Nat → Nat → Nat → Readback Unit
  | 0, _, _ => fail .running
  | fuel + 1, blockOff, totalBlock =>
    if totalBlock = 0 then pure ()
    else do
      let good ← dev.checkBlock blockOff
      if good then do
        dev.readPages fd (blockOff * dev.pagesPerBlock.toNat % 2 ^ 32) dev.pagesPerBlock.toNat 0
        readBlocks fd fuel ((blockOff + 1) % 2 ^ 32) (totalBlock - 1)
      else
        readBlocks fd fuel ((blockOff + 1) % 2 ^ 32) totalBlock

/-- What is returned is -1 behind the loop as well as at the exit label. -/
def nuwriterReadbackMtd (fd : Int) (fuel : Nat) : Readback Int := fun log =>
  match dev.readBlocks fd fuel dev.blockStart.toNat dev.blockTotal.toNat log with
  | (.ok (), log') => (.ok (-1), log')
  | (.error .failed, log') => (.ok (-1), log')
  | (.error .running, log') => (.error .running, log')

end Code

def pageCmds (fd : Int) (page : Nat) : List ReadbackCmd :=
  if 0 ≤ fd then [.read page, .write (dev.page page)] else [.read page]

/-- What is to be done with a block: nothing after the check if it is bad. -/
def blockCmds (fd : Int) (block : Nat) : List ReadbackCmd :=
  .check block ::
    if dev.good block then
      (List.range' (block * dev.pagesPerBlock.toNat) dev.pagesPerBlock.toNat).flatMap
        (dev.pageCmds fd)
    else []

def walk (fd : Int) (block n : Nat) : List ReadbackCmd :=
  (List.range' block n).flatMap (dev.blockCmds fd)

def wholeWalk (fd : Int) : List ReadbackCmd :=
  dev.walk fd dev.blockStart.toNat dev.blockTotal.toNat

def InRange (block : Nat) : Prop :=
  dev.blockStart.toNat ≤ block ∧ block < dev.blockStart.toNat + dev.blockTotal.toNat

def Within : ReadbackCmd → Prop
  | .check block => dev.InRange block
  | .read page => dev.InRange (page / dev.pagesPerBlock.toNat)
  | .write _ => True

/-- A check tells of a bad block, but does not fail. -/
def Done (before : List ReadbackCmd) : ReadbackCmd → Prop
  | .check _ => True
  | c => dev.does (before ++ [c]) = true

def transfers (log : List ReadbackCmd) : List ReadbackCmd :=
  log.filter fun
    | .check _ => false
    | _ => true

/-- The run comes to its end inside the partition, and transfers its good blocks in order, all of
them and with success unless a transfer fails. -/
def ReadsBack (fd : Int) : Prop :=
  ∃ fuel ret log, dev.nuwriterReadbackMtd fd fuel [] = (.ok ret, log) ∧
    (∀ c ∈ log, dev.Within c) ∧ transfers log <+: transfers (dev.wholeWalk fd) ∧
    (AllMet dev.Done [] log → transfers log = transfers (dev.wholeWalk fd) ∧ ret = 0)

section Run

variable {dev} {fd : Int}

def act (dev : MtdPartition) : ReadbackCmd → Readback Unit
  | .check block => dev.checkBlock block >>= fun _ => pure ()
  | c => dev.transfer c

theorem transfer_run (c : ReadbackCmd) (log : List ReadbackCmd) :
    dev.transfer c log =
      (if dev.does (log ++ [c]) then .ok () else .error .failed, log ++ [c]) := by
  rw [transfer, bind_ok (issue_apply c dev.does log)]
  split_ifs <;> rfl

theorem acts : Acts .failed dev.Done dev.act := by
  have transferred : ∀ c log, (dev.does (log ++ [c]) = true ∧
      dev.transfer c log = (.ok (), log ++ [c])) ∨
      (¬dev.does (log ++ [c]) = true ∧ dev.transfer c log = (.error .failed, log ++ [c])) := by
    intro c log
    rw [transfer_run]
    by_cases done : dev.does (log ++ [c]) = true
    · exact .inl ⟨done, by rw [if_pos done]⟩
    · exact .inr ⟨done, by rw [if_neg done]⟩
  intro c log
  cases c with
  | check block => exact .inl ⟨trivial, rfl⟩
  | read page => exact transferred (.read page) log
  | write data => exact transferred (.write data) log

theorem readPages_run {pageOff : Nat} (n pageIdx : Nat) (small : pageOff + pageIdx + n ≤ 2 ^ 32) :
    dev.readPages fd pageOff n pageIdx =
      each dev.act ((List.range' (pageOff + pageIdx) n).flatMap (dev.pageCmds fd)) := by
  induction n generalizing pageIdx with
  | zero => rfl
  | succ n ih =>
    rw [readPages, List.range'_succ, List.flatMap_cons, each_append, Nat.mod_eq_of_lt (by omega),
      ih (pageIdx + 1) (by omega)]
    unfold pageCmds writeFile
    by_cases file : 0 ≤ fd
    · simp only [if_pos file, each, act, bind_assoc, pure_bind]
      rfl
    · simp only [if_neg file, each, act, bind_assoc, pure_bind]
      rfl

theorem check_run (block : Nat) (log : List ReadbackCmd) :
    dev.checkBlock block log = (.ok (dev.good block), log ++ [.check block]) := rfl

theorem act_check (block : Nat) (log : List ReadbackCmd) :
    dev.act (.check block) log = (.ok (), log ++ [.check block]) := rfl

theorem readBlocks_bad {fuel block total : Nat} (more : total ≠ 0) (bad : dev.good block = false) :
    dev.readBlocks fd (fuel + 1) block total =
      each dev.act (dev.blockCmds fd block) >>= fun _ =>
        dev.readBlocks fd fuel ((block + 1) % 2 ^ 32) total := by
  funext log
  rw [readBlocks, if_neg more, bind_ok (check_run block log), blockCmds, bad,
    if_neg Bool.false_ne_true, if_neg Bool.false_ne_true, each, bind_assoc,
    bind_ok (act_check block log)]
  rfl

theorem readBlocks_good {fuel block total : Nat} (more : total ≠ 0) (good : dev.good block = true)
    (fits : (block + 1) * dev.pagesPerBlock.toNat ≤ 2 ^ 32) :
    dev.readBlocks fd (fuel + 1) block total =
      each dev.act (dev.blockCmds fd block) >>= fun _ =>
        dev.readBlocks fd fuel ((block + 1) % 2 ^ 32) (total - 1) := by
  rw [Nat.succ_mul] at fits
  have first : block * dev.pagesPerBlock.toNat % 2 ^ 32 = block * dev.pagesPerBlock.toNat := by
    by_cases none : dev.pagesPerBlock.toNat = 0
    · rw [none, Nat.mul_zero, Nat.zero_mod]
    · exact Nat.mod_eq_of_lt (by omega)
  funext log
  rw [readBlocks, if_neg more, bind_ok (check_run block log), blockCmds, good, if_pos rfl,
    if_pos rfl, each, bind_assoc, bind_ok (act_check block log), first,
    readPages_run _ _ (by omega), Nat.add_zero]

theorem readBlocks_run (n : Nat) {fuel block total : Nat} (room : n ≤ total)
    (inSpace : block + n ≤ 2 ^ 32) (pages : (block + n) * dev.pagesPerBlock.toNat ≤ 2 ^ 32) :
    dev.readBlocks fd (fuel + n) (block % 2 ^ 32) total =
      each dev.act (dev.walk fd block n) >>= fun _ =>
        dev.readBlocks fd fuel ((block + n) % 2 ^ 32)
          (total - (List.range' block n).countP dev.good) := by
  induction n generalizing block total with
  | zero => rfl
  | succ n ih =>
    have fits : (block + 1) * dev.pagesPerBlock.toNat ≤ 2 ^ 32 :=
      (Nat.mul_le_mul_right _ (by omega)).trans pages
    have next : block + (n + 1) = block + 1 + n := by omega
    rw [next] at pages
    rw [walk, List.range'_succ, List.flatMap_cons, each_append, bind_assoc, List.countP_cons,
      ← Nat.add_assoc, Nat.mod_eq_of_lt (show block < 2 ^ 32 by omega), next]
    cases good : dev.good block with
    | true =>
      rw [readBlocks_good (by omega) good fits, ih (by omega) (by omega) pages, if_pos rfl,
        Nat.sub_sub, Nat.add_comm 1]
      rfl
    | false =>
      rw [readBlocks_bad (by omega) good, ih (by omega) (by omega) pages,
        if_neg Bool.false_ne_true]
      rfl

theorem readBlocks_more {fuel fuel' : Nat} (h : fuel ≤ fuel') (block total : Nat) :
    Approx .running (dev.readBlocks fd fuel block total)
      (dev.readBlocks fd fuel' block total) := by
  induction fuel generalizing fuel' block total with
  | zero => exact fun log => .inl rfl
  | succ fuel ih =>
    obtain ⟨more, rfl⟩ : ∃ k, fuel' = k + 1 := ⟨fuel' - 1, by omega⟩
    rw [readBlocks, readBlocks]
    by_cases done : total = 0
    · rw [if_pos done, if_pos done]
      exact .refl
    · rw [if_neg done, if_neg done]
      refine Approx.refl.bind fun good => ?_
      cases good with
      | true => exact Approx.refl.bind fun _ => ih (by omega) _ _
      | false => exact ih (by omega) _ _

end Run

section Log

variable {dev} {fd : Int} {c : ReadbackCmd}

theorem within_blockCmds {block : Nat} (inRange : dev.InRange block)
    (here : c ∈ dev.blockCmds fd block) : dev.Within c := by
  rw [blockCmds, List.mem_cons] at here
  rcases here with rfl | page
  · exact inRange
  · by_cases good : dev.good block = true
    · rw [if_pos good, List.mem_flatMap] at page
      obtain ⟨p, listed, cmd⟩ := page
      rw [List.mem_range'_1] at listed
      have inBlock : p / dev.pagesPerBlock.toNat = block := by
        rw [Nat.div_eq_iff (by omega)]
        omega
      unfold pageCmds at cmd
      have either : c = .read p ∨ c = .write (dev.page p) := by
        split_ifs at cmd
        · exact List.mem_pair.mp cmd
        · exact .inl (List.mem_singleton.mp cmd)
      rcases either with rfl | rfl
      · change dev.InRange _
        rw [inBlock]
        exact inRange
      · trivial
    · rw [if_neg good] at page
      exact absurd page List.not_mem_nil

theorem within_wholeWalk (here : c ∈ dev.wholeWalk fd) : dev.Within c := by
  obtain ⟨block, listed, cmd⟩ := List.mem_flatMap.mp here
  rw [List.mem_range'_1] at listed
  exact within_blockCmds listed cmd

theorem issues_transfer (c : ReadbackCmd) : Issues (fun _ => True) (dev.transfer c) := by
  unfold transfer
  refine .bind (.issue trivial _) fun done => ?_
  cases done with
  | true => exact .pure ()
  | false => exact .fail _

theorem issues_readPages (pageOff n pageIdx : Nat) :
    Issues (fun _ => True) (dev.readPages fd pageOff n pageIdx) := by
  induction n generalizing pageIdx with
  | zero => exact .pure ()
  | succ n ih =>
    refine .bind (issues_transfer _) fun _ => .bind ?_ fun _ => ih _
    unfold writeFile
    by_cases file : 0 ≤ fd
    · rw [if_pos file]
      exact issues_transfer _
    · rw [if_neg file]
      exact .pure ()

theorem issues_readBlocks (fuel block total : Nat) :
    Issues (fun _ => True) (dev.readBlocks fd fuel block total) := by
  induction fuel generalizing block total with
  | zero => exact .fail _
  | succ fuel ih =>
    rw [readBlocks]
    by_cases done : total = 0
    · rw [if_pos done]
      exact .pure ()
    · rw [if_neg done]
      refine .bind (.issue trivial _) fun good => ?_
      cases good with
      | true => exact .bind (issues_readPages _ _ _) fun _ => ih _ _
      | false => exact ih _ _

theorem readBlocks_checks {fuel block total : Nat} (more : total ≠ 0) (log : List ReadbackCmd) :
    .check block ∈ (dev.readBlocks fd (fuel + 1) block total log).2 := by
  have grows : log ++ [.check block] <+: (dev.readBlocks fd (fuel + 1) block total log).2 := by
    rw [readBlocks, if_neg more, bind_ok (check_run block log)]
    cases dev.good block with
    | true => exact (Issues.bind (issues_readPages _ _ _) fun _ => issues_readBlocks _ _ _).grows _
    | false => exact (issues_readBlocks _ _ _).grows _
  exact grows.subset (by simp)

theorem not_inRange_behind :
    ¬dev.InRange ((dev.blockStart.toNat + dev.blockTotal.toNat) % 2 ^ 32) := by
  have fit := dev.blocksFit
  have few := dev.blockTotal.isLt
  unfold InRange
  omega

theorem nuwriterReadbackMtd_ok {fuel : Nat} {ret : Int} {log : List ReadbackCmd} :
    dev.nuwriterReadbackMtd fd fuel [] = (.ok ret, log) ↔
      (dev.readBlocks fd fuel dev.blockStart.toNat dev.blockTotal.toNat []).1 ≠ .error .running ∧
        (dev.readBlocks fd fuel dev.blockStart.toNat dev.blockTotal.toNat []).2 = log ∧
        ret = -1 := by
  unfold nuwriterReadbackMtd
  rcases dev.readBlocks fd fuel dev.blockStart.toNat dev.blockTotal.toNat [] with ⟨result, log'⟩
  match result with
  | .ok () => simp [and_comm, eq_comm]
  | .error .failed => simp [and_comm, eq_comm]
  | .error .running => simp

end Log

/-- The run is as it is to be exactly if a transfer of it fails: it never says that all went well, and
behind bad blocks it leaves the partition. -/
theorem reads_back_iff (dev : MtdPartition) (fd : Int) :
    dev.ReadsBack fd ↔ ¬AllMet dev.Done [] (dev.wholeWalk fd) := by
  have run : ∀ fuel, dev.readBlocks fd (fuel + dev.blockTotal.toNat) dev.blockStart.toNat
      dev.blockTotal.toNat = each dev.act (dev.wholeWalk fd) >>= fun _ =>
        dev.readBlocks fd fuel ((dev.blockStart.toNat + dev.blockTotal.toNat) % 2 ^ 32)
          (dev.blockTotal.toNat -
            (List.range' dev.blockStart.toNat dev.blockTotal.toNat).countP dev.good) := by
    intro fuel
    have counted := @readBlocks_run dev fd dev.blockTotal.toNat fuel dev.blockStart.toNat
      dev.blockTotal.toNat le_rfl dev.blocksFit dev.pagesFit
    rwa [Nat.mod_eq_of_lt dev.blockStart.isLt] at counted
  rcases acts.each (dev.wholeWalk fd) [] with ⟨all, walked⟩ | ⟨front, part, refused, walked⟩
  · rw [List.nil_append] at all walked
    refine iff_of_false ?_ (not_not.mpr all)
    rintro ⟨fuel, ret, log, result, within, -, whole⟩
    obtain ⟨ends, rfl, rfl⟩ := nuwriterReadbackMtd_ok.mp result
    -- with more fuel the run is the same, and gets behind the partition
    have same := (@readBlocks_more dev fd fuel (fuel + 1 + dev.blockTotal.toNat) (by omega)
      dev.blockStart.toNat dev.blockTotal.toNat []).resolve_left ends
    rw [run, bind_ok walked] at same
    rw [same] at within whole
    by_cases left : dev.blockTotal.toNat -
        (List.range' dev.blockStart.toNat dev.blockTotal.toNat).countP dev.good = 0
    · rw [left] at whole
      exact absurd (whole all).2 (by decide)
    · exact not_inRange_behind (within _ (readBlocks_checks left _))
  · rw [List.nil_append] at refused walked
    refine iff_of_true ?_ fun all => refused ?_
    · have ends := run 0
      have failed : dev.readBlocks fd (0 + dev.blockTotal.toNat) dev.blockStart.toNat
          dev.blockTotal.toNat [] = (.error .failed, front) := by
        rw [ends, bind_error walked]
      refine ⟨0 + dev.blockTotal.toNat, -1, front, ?_, ?_, part.filter _, ?_⟩
      · rw [nuwriterReadbackMtd_ok, failed]
        exact ⟨by simp, rfl, rfl⟩
      · exact fun c here => within_wholeWalk (part.subset here)
      · exact fun all => absurd all refused
    · exact ((allMet_trans List.nil_prefix part).mp all).1

def twoBlocks : MtdPartition where
  pageSize := 1
  pagesPerBlock := 1
  blockTotal := 2
  blockStart := 0
  blocksFit := by decide
  pagesFit := by decide
  page := fun _ => [0]
  good := fun _ => true
  does := fun _ => true

theorem twoBlocks_not_readBack : ¬∀ (dev : MtdPartition) (fd : Int), dev.ReadsBack fd := by
  intro all
  obtain ⟨fuel, ret, log, result, -, -, whole⟩ := all twoBlocks 3
  obtain ⟨-, -, rfl⟩ := nuwriterReadbackMtd_ok.mp result
  refine absurd (whole fun before c met => ?_).2 (by decide)
  cases c <;> first | exact trivial | rfl

end MtdPartition

end NuMakerMA35
