import NuMakerMA35.NuWriterSound
import NuMakerMA35.Logged

namespace NuMakerMA35

open Logged

inductive MtdCmd where
  | erase (block : Nat)
  | write (page : Nat) (data : List (BitVec 8))
  deriving DecidableEq, Repr

def MtdCmd.isErase : MtdCmd → Bool
  | .erase _ => true
  | .write _ _ => false

/-- How a run leaves its way: at the exit label, at a write into no buffer, or not so far. -/
inductive MtdExit where
  | failed
  | crashed
  | running
  deriving DecidableEq, Repr

abbrev Mtd : Type → Type := Logged MtdExit MtdCmd

/-- `struct rt_mtd_nand_device`, with the blocks its flash has good, and whether a command, given all
before it, is done. Pages and blocks are counted in 32 bits. -/
structure MtdNand where
  pageShift : Nat
  blockShift : Nat
  inSpace : pageShift + blockShift < 32
  blockStart : Nat
  blockEnd : Nat
  pagesFit : (blockEnd + 1) * 2 ^ blockShift ≤ 2 ^ 32
  good : Nat → Bool
  does : List MtdCmd → Bool

structure PackChild where
  imageLength : BitVec 64
  flashAddress : BitVec 64
  data : Nat → BitVec 8

def PackChild.bytes (child : PackChild) (off n : Nat) : List (BitVec 8) :=
  (List.range n).map fun i => child.data (off + i)

namespace MtdNand

variable (dev : MtdNand)

def pageSize : Nat := 2 ^ dev.pageShift
def pagesPerBlock : Nat := 2 ^ dev.blockShift
def eraseSize : Nat := dev.pagesPerBlock * dev.pageSize

def checkBlock (block : Nat) : Bool := decide (block ≤ dev.blockEnd) && dev.good block

section Code

variable (pageBuffer : Bool)

/-- A command whose refusal ends the program. A page is collected in the page buffer first, which
is not asked for. -/
def command : MtdCmd → Mtd Unit
  | .write page data =>
    if pageBuffer then do
      let done ← issue (.write page data) dev.does
      if done then pure () else fail .failed
    else fail .crashed
  | .erase block => do
    let done ← issue (.erase block) dev.does
    if done then pure () else fail .failed

def programPages (child : PackChild) (pageOff blockIdx : Nat) : Nat → Nat → Nat → Mtd Nat
  | 0, _, remain => pure remain
  | n + 1, pageIdx, remain => do
    let transferBytes := if dev.pageSize ≤ remain then dev.pageSize else remain
    dev.command pageBuffer (.write ((pageOff + pageIdx) % 2 ^ 32)
      (child.bytes ((blockIdx * dev.pagesPerBlock + pageIdx) * dev.pageSize % 2 ^ 32)
        transferBytes))
    programPages child pageOff blockIdx n (pageIdx + 1) (remain - transferBytes)

def programBlocks (child : PackChild) (totalBlock : Nat) : Nat → Nat → Nat → Nat → Mtd Unit
  | 0, _, _, _ => fail .running
  | fuel + 1, blockOff, blockIdx, remain =>
    if totalBlock ≤ blockIdx then pure ()
    else if !dev.checkBlock blockOff then
      programBlocks child totalBlock fuel ((blockOff + 1) % 2 ^ 32) blockIdx remain
    else do
      dev.command pageBuffer (.erase blockOff)
      let totalPage := if dev.eraseSize ≤ remain then dev.pagesPerBlock
        else rtAlign remain dev.pageSize / dev.pageSize
      let remain ← dev.programPages pageBuffer child (blockOff * dev.pagesPerBlock % 2 ^ 32)
        blockIdx totalPage 0 remain
      programBlocks child totalBlock fuel ((blockOff + 1) % 2 ^ 32) (blockIdx + 1) remain

def programChild (fuel : Nat) (child : PackChild) : Mtd Unit :=
  let remain := child.imageLength.toNat % 2 ^ 32
  let totalBlock := rtAlign remain dev.eraseSize / dev.eraseSize
  if child.flashAddress.toNat ≠ rtAlign child.flashAddress.toNat dev.eraseSize then fail .failed
  else
    dev.programBlocks pageBuffer child totalBlock fuel
      (child.flashAddress.toNat / dev.eraseSize % 2 ^ 32) 0 remain

/-- The last child comes first. The variable that is returned is set once, to -1. -/
def nuwriterPackProgramMtd (fuel : Nat) (children : List PackChild) : Mtd Int := fun log =>
  let ret : Int := -1
  match each (dev.programChild pageBuffer fuel) children.reverse log with
  | (.ok (), log') => (.ok ret, log')
  | (.error .failed, log') => (.ok ret, log')
  | (.error exit, log') => (.error exit, log')

end Code

def goodFrom (block : Nat) : List Nat :=
  (List.range' block (dev.blockEnd + 1 - block)).filter fun b =>
    decide (dev.blockStart ≤ b) && dev.checkBlock b

def pageCount (n : Nat) : Nat := (n + dev.pageSize - 1) / dev.pageSize

/-- The pages of a block that holds `n` bytes of the image, which start at `off`. -/
def blockPages (child : PackChild) (block off n : Nat) : List MtdCmd :=
  (List.range (dev.pageCount n)).map fun page =>
    .write (block * dev.pagesPerBlock + page)
      (child.bytes (off + page * dev.pageSize) (min dev.pageSize (n - page * dev.pageSize)))

/-- `n` bytes of the image in the given blocks, one after the other, as far as they reach. Each block
is erased before it is written. A last page that is not full stays erased behind the image. -/
def layoutIn (child : PackChild) : List Nat → Nat → Nat → List MtdCmd
  | [], _, _ => []
  | block :: blocks, off, n =>
    if n = 0 then []
    else .erase block :: dev.blockPages child block off (min n dev.eraseSize) ++
      layoutIn child blocks (off + dev.eraseSize) (n - dev.eraseSize)

def room (child : PackChild) : List Nat := dev.goodFrom (child.flashAddress.toNat / dev.eraseSize)

def layout (child : PackChild) (n : Nat) : List MtdCmd := dev.layoutIn child (dev.room child) 0 n

def Accepts (child : PackChild) : Prop :=
  child.flashAddress.toNat % dev.eraseSize = 0 ∧ child.flashAddress.toNat < 2 ^ 32

/-- What was done for a child is the writing of a beginning of its image. -/
def Placed (child : PackChild) (log log' : List MtdCmd) : Prop :=
  ∃ n ≤ child.imageLength.toNat, ∃ new, log' = log ++ new ∧ new <+: dev.layout child n

def Whole (child : PackChild) (log log' : List MtdCmd) : Prop :=
  dev.Accepts child ∧ child.imageLength.toNat ≤ (dev.room child).length * dev.eraseSize ∧
    log' = log ++ dev.layout child child.imageLength.toNat ∧
    AllMet (fun before c => dev.does (before ++ [c]) = true) log log'

section Property

variable (pageBuffer : Bool) (fuel : Nat)

def EachPlaced : List PackChild → List MtdCmd → Prop
  | [], _ => True
  | child :: children, log =>
    dev.Placed child log (dev.programChild pageBuffer fuel child log).2 ∧
      ((dev.programChild pageBuffer fuel child log).1 = .ok () →
        EachPlaced children (dev.programChild pageBuffer fuel child log).2)

def AllWhole : List PackChild → List MtdCmd → Prop
  | [], _ => True
  | child :: children, log =>
    dev.Whole child log (dev.programChild pageBuffer fuel child log).2 ∧
      AllWhole children (dev.programChild pageBuffer fuel child log).2

end Property

/-- The program comes to its end, writes the images where they belong and nothing else, and returns 0
exactly if it has written all of them. -/
def ProgramsRight (pageBuffer : Bool) (children : List PackChild) (log : List MtdCmd) : Prop :=
  ∃ fuel ret log', dev.nuwriterPackProgramMtd pageBuffer fuel children log = (.ok ret, log') ∧
    dev.EachPlaced pageBuffer fuel children.reverse log ∧
    (ret = 0 ↔ dev.AllWhole pageBuffer fuel children.reverse log)

section Condition

variable (pageBuffer : Bool)

def perform (cmds : List MtdCmd) : Mtd Unit := each (dev.command pageBuffer) cmds

/-- The bytes of the image that count: the low word of its length, if that can be rounded up. -/
def counted (child : PackChild) : Nat :=
  if child.imageLength.toNat % 2 ^ 32 + dev.eraseSize - 1 < 2 ^ 32 then
    child.imageLength.toNat % 2 ^ 32
  else 0

/-- There is nothing to write; or no good block lies before the device, and the blocks hold what is
to be written or a command is refused first. -/
def Stays (child : PackChild) (log : List MtdCmd) : Prop :=
  dev.counted child = 0 ∨
    (∀ b, child.flashAddress.toNat / dev.eraseSize ≤ b → b < dev.blockStart →
      dev.checkBlock b = false) ∧
    match (dev.perform pageBuffer (dev.layout child (dev.counted child)) log).1 with
    | .ok _ => dev.counted child ≤ (dev.room child).length * dev.eraseSize
    | .error exit => exit = .failed

def RunStays : List PackChild → List MtdCmd → Prop
  | [], _ => True
  | child :: children, log => dev.Accepts child → dev.Stays pageBuffer child log ∧
      ∀ mid, dev.perform pageBuffer (dev.layout child (dev.counted child)) log = (.ok (), mid) →
        RunStays children mid

/-- Every child is accepted, counts whole, has the blocks it needs, and no command is refused. -/
def Complete : List PackChild → List MtdCmd → Prop
  | [], _ => True
  | child :: children, log => dev.Accepts child ∧
      dev.counted child = child.imageLength.toNat ∧
      child.imageLength.toNat ≤ (dev.room child).length * dev.eraseSize ∧
      ∃ mid, dev.perform pageBuffer (dev.layout child child.imageLength.toNat) log = (.ok (), mid) ∧
        Complete children mid

end Condition

section Geometry

theorem pageSize_pos : 0 < dev.pageSize := Nat.two_pow_pos _

theorem pagesPerBlock_pos : 0 < dev.pagesPerBlock := Nat.two_pow_pos _

theorem eraseSize_pos : 0 < dev.eraseSize := Nat.mul_pos dev.pagesPerBlock_pos dev.pageSize_pos

theorem eraseSize_eq : dev.eraseSize = 2 ^ (dev.pageShift + dev.blockShift) := by
  rw [eraseSize, pagesPerBlock, pageSize, ← Nat.pow_add, Nat.add_comm]

theorem pageSize_le : dev.pageSize ≤ dev.eraseSize :=
  Nat.le_mul_of_pos_left _ dev.pagesPerBlock_pos

variable {dev} {block n : Nat} {child : PackChild}

theorem accepts_iff : child.flashAddress.toNat = rtAlign child.flashAddress.toNat dev.eraseSize ↔
    dev.Accepts child := by
  have inSpace := dev.inSpace
  have pos := dev.eraseSize_pos
  have whole : 2 ^ 32 = 2 ^ (32 - (dev.pageShift + dev.blockShift)) * dev.eraseSize := by
    rw [dev.eraseSize_eq, ← Nat.pow_add, Nat.sub_add_cancel (by omega)]
  have rounded : rtAlign child.flashAddress.toNat dev.eraseSize =
      (child.flashAddress.toNat + dev.eraseSize - 1) % 2 ^ 32 / dev.eraseSize * dev.eraseSize := by
    rw [rtAlign_low pos, dev.eraseSize_eq, and_high_mask (Nat.mod_lt _ (by decide)) (by omega)]
  constructor
  · intro same
    refine ⟨?_, ?_⟩
    · rw [same, rounded]
      exact Nat.mul_mod_left _ _
    · rw [same]
      exact rtAlign_lt pos
  · rintro ⟨aligned, small⟩
    obtain ⟨q, at_⟩ : ∃ q, child.flashAddress.toNat = q * dev.eraseSize :=
      ⟨_, (Nat.div_mul_cancel (Nat.dvd_of_mod_eq_zero aligned)).symm⟩
    have below : q < 2 ^ (32 - (dev.pageShift + dev.blockShift)) := by
      rw [at_, whole] at small
      exact Nat.lt_of_mul_lt_mul_right small
    have upTo : (q + 1) * dev.eraseSize ≤ 2 ^ 32 := by
      rw [whole]
      exact Nat.mul_le_mul_right _ below
    have next : (q + 1) * dev.eraseSize = q * dev.eraseSize + dev.eraseSize := Nat.succ_mul _ _
    rw [rounded, Nat.mod_eq_of_lt (by omega), at_]
    have back : q * dev.eraseSize + dev.eraseSize - 1 = dev.eraseSize - 1 + q * dev.eraseSize := by
      omega
    rw [back, Nat.add_mul_div_right _ _ pos, Nat.div_eq_of_lt (by omega), Nat.zero_add]

theorem totalBlock_eq : rtAlign (child.imageLength.toNat % 2 ^ 32) dev.eraseSize / dev.eraseSize =
    (dev.counted child + dev.eraseSize - 1) / dev.eraseSize := by
  have inSpace := dev.inSpace
  have pos := dev.eraseSize_pos
  unfold counted
  split_ifs with fits
  · rw [dev.eraseSize_eq] at fits ⊢
    exact rtAlign_div (by omega) fits
  · rw [dev.eraseSize_eq, rtAlign_wrapped (by omega) (Nat.mod_lt _ (by decide))
      (by rw [← dev.eraseSize_eq]; omega), Nat.zero_div, ← dev.eraseSize_eq,
      Nat.div_eq_of_lt (by omega)]

theorem pageCount_erase : dev.pageCount dev.eraseSize = dev.pagesPerBlock := by
  have pos := dev.pageSize_pos
  rw [pageCount, eraseSize, Nat.add_sub_assoc pos, Nat.add_comm, Nat.add_mul_div_right _ _ pos,
    Nat.div_eq_of_lt (by omega), Nat.zero_add]

theorem pageCount_mono {m : Nat} (h : n ≤ m) : dev.pageCount n ≤ dev.pageCount m :=
  Nat.div_le_div_right (by omega)

theorem lt_pageCount {page : Nat} : page < dev.pageCount n ↔ page * dev.pageSize < n := by
  have pos := dev.pageSize_pos
  rw [pageCount, Nat.lt_div_iff_mul_lt pos]
  omega

theorem sub_pageCount : n - dev.pageCount n * dev.pageSize = 0 := by
  have last := (@lt_pageCount dev n (dev.pageCount n)).not.mp (lt_irrefl _)
  omega

theorem blocks_sub (some : 0 < n) :
    (n + dev.eraseSize - 1) / dev.eraseSize = (n - dev.eraseSize + dev.eraseSize - 1) / dev.eraseSize + 1 := by
  have pos := dev.eraseSize_pos
  by_cases last : n ≤ dev.eraseSize
  · rw [show n - dev.eraseSize + dev.eraseSize - 1 = dev.eraseSize - 1 by omega,
      Nat.div_eq_of_lt (by omega : dev.eraseSize - 1 < dev.eraseSize),
      show n + dev.eraseSize - 1 = n - 1 + dev.eraseSize by omega, Nat.add_div_right _ pos,
      Nat.div_eq_of_lt (by omega : n - 1 < dev.eraseSize)]
  · rw [show n + dev.eraseSize - 1 = n - 1 + dev.eraseSize by omega, Nat.add_div_right _ pos,
      show n - dev.eraseSize + dev.eraseSize - 1 = n - 1 by omega]

end Geometry

section Run

variable {dev} {pageBuffer : Bool} {child : PackChild} {block idx total fuel remain : Nat}

theorem programBlocks_stop (stop : total ≤ idx) :
    dev.programBlocks pageBuffer child total (fuel + 1) block idx remain = pure () := by
  rw [programBlocks, if_pos stop]

theorem programBlocks_skip (more : idx < total) (bad : ¬dev.checkBlock block = true) :
    dev.programBlocks pageBuffer child total (fuel + 1) block idx remain =
      dev.programBlocks pageBuffer child total fuel ((block + 1) % 2 ^ 32) idx remain := by
  rw [programBlocks, if_neg (by omega), Bool.eq_false_of_not_eq_true bad, if_pos (by decide)]

def totalPage (dev : MtdNand) (remain : Nat) : Nat :=
  if dev.eraseSize ≤ remain then dev.pagesPerBlock else rtAlign remain dev.pageSize / dev.pageSize

theorem programBlocks_erase (more : idx < total) (good : dev.checkBlock block = true) :
    dev.programBlocks pageBuffer child total (fuel + 1) block idx remain =
      (dev.command pageBuffer (.erase block) >>= fun _ =>
        dev.programPages pageBuffer child (block * dev.pagesPerBlock % 2 ^ 32) idx
          (dev.totalPage remain) 0 remain >>= fun remain =>
        dev.programBlocks pageBuffer child total fuel ((block + 1) % 2 ^ 32) (idx + 1) remain) := by
  rw [programBlocks, if_neg (by omega), good, if_neg (by decide)]
  rfl

theorem programPages_run (inPages : (block + 1) * dev.pagesPerBlock ≤ 2 ^ 32)
    (inWord : idx * dev.eraseSize + remain ≤ 2 ^ 32) {n i : Nat} (inBlock : i + n ≤ dev.pagesPerBlock)
    (begins : ∀ page < i + n, page * dev.pageSize < remain) :
    dev.programPages pageBuffer child (block * dev.pagesPerBlock % 2 ^ 32) idx n i
        (remain - i * dev.pageSize) =
      (dev.perform pageBuffer ((List.range' i n).map fun page =>
        .write (block * dev.pagesPerBlock + page) (child.bytes
          (idx * dev.eraseSize + page * dev.pageSize)
          (min dev.pageSize (remain - page * dev.pageSize)))) >>= fun _ =>
        pure (remain - (i + n) * dev.pageSize)) := by
  induction n generalizing i with
  | zero => rfl
  | succ n ih =>
    have begun := begins i (by omega)
    have next : (block + 1) * dev.pagesPerBlock = block * dev.pagesPerBlock + dev.pagesPerBlock :=
      Nat.succ_mul _ _
    have page : (block * dev.pagesPerBlock % 2 ^ 32 + i) % 2 ^ 32 =
        block * dev.pagesPerBlock + i := by
      rw [Nat.mod_add_mod, Nat.mod_eq_of_lt (by omega)]
    have off : (idx * dev.pagesPerBlock + i) * dev.pageSize % 2 ^ 32 =
        idx * dev.eraseSize + i * dev.pageSize := by
      have same : (idx * dev.pagesPerBlock + i) * dev.pageSize =
          idx * dev.eraseSize + i * dev.pageSize := by
        rw [eraseSize, Nat.add_mul, Nat.mul_assoc]
      rw [same, Nat.mod_eq_of_lt (by omega)]
    have transfer : (if dev.pageSize ≤ remain - i * dev.pageSize then dev.pageSize
        else remain - i * dev.pageSize) = min dev.pageSize (remain - i * dev.pageSize) := by
      split_ifs <;> omega
    have left : remain - i * dev.pageSize - min dev.pageSize (remain - i * dev.pageSize) =
        remain - (i + 1) * dev.pageSize := by
      rw [Nat.succ_mul]
      omega
    rw [programPages, transfer, page, off, left, ih (by omega) (fun p h => begins p (by omega)),
      List.range'_succ, List.map_cons, perform, perform, each, bind_assoc,
      show i + 1 + n = i + (n + 1) by omega]

theorem blockPages_eq (n : Nat) : dev.blockPages child block (idx * dev.eraseSize)
      (min n dev.eraseSize) =
    (List.range' 0 (dev.pageCount (min n dev.eraseSize))).map fun page =>
      .write (block * dev.pagesPerBlock + page) (child.bytes
        (idx * dev.eraseSize + page * dev.pageSize)
        (min dev.pageSize (n - page * dev.pageSize))) := by
  rw [blockPages, List.range_eq_range']
  refine List.map_congr_left fun page inside => ?_
  have within := lt_pageCount.mp (show page < dev.pageCount (min n dev.eraseSize) by
    simpa using inside)
  have early : page < dev.pagesPerBlock := by
    rw [← pageCount_erase]
    exact lt_pageCount.mpr (by omega)
  have room : (page + 1) * dev.pageSize ≤ dev.eraseSize := Nat.mul_le_mul_right _ early
  rw [Nat.succ_mul] at room
  rw [show min dev.pageSize (min n dev.eraseSize - page * dev.pageSize) =
    min dev.pageSize (n - page * dev.pageSize) by omega]

theorem programBlocks_good (more : idx < total) (good : dev.checkBlock block = true)
    (inWord : idx * dev.eraseSize + remain + dev.eraseSize - 1 < 2 ^ 32) :
    dev.programBlocks pageBuffer child total (fuel + 1) block idx remain =
      (dev.perform pageBuffer (.erase block :: dev.blockPages child block (idx * dev.eraseSize)
        (min remain dev.eraseSize)) >>= fun _ =>
        dev.programBlocks pageBuffer child total fuel ((block + 1) % 2 ^ 32) (idx + 1)
          (remain - dev.eraseSize)) := by
  have inSpace := dev.inSpace
  have upTo : block ≤ dev.blockEnd := by
    rw [checkBlock, Bool.and_eq_true] at good
    exact of_decide_eq_true good.1
  have inPages : (block + 1) * dev.pagesPerBlock ≤ 2 ^ 32 :=
    le_trans (Nat.mul_le_mul_right _ (by omega)) dev.pagesFit
  have pages : dev.totalPage remain = dev.pageCount (min remain dev.eraseSize) := by
    unfold totalPage
    split_ifs with full
    · rw [Nat.min_eq_right full, pageCount_erase]
    · have fits := dev.pageSize_le
      rw [Nat.min_eq_left (by omega), pageCount]
      exact rtAlign_div (by omega) (show remain + dev.pageSize - 1 < 2 ^ 32 by omega)
  have count : dev.pageCount (min remain dev.eraseSize) ≤ dev.pagesPerBlock := by
    rw [← pageCount_erase]
    exact pageCount_mono (Nat.min_le_right _ _)
  have left : remain - dev.pageCount (min remain dev.eraseSize) * dev.pageSize =
      remain - dev.eraseSize := by
    by_cases full : dev.eraseSize ≤ remain
    · rw [Nat.min_eq_right full, pageCount_erase, eraseSize]
    · rw [Nat.min_eq_left (by omega), sub_pageCount]
      omega
  have run := @programPages_run dev pageBuffer child block idx remain inPages
    (by have := dev.eraseSize_pos; omega) (dev.pageCount (min remain dev.eraseSize)) 0 (by omega)
    (fun page inside => by
      have := lt_pageCount.mp (by simpa using inside)
      omega)
  rw [Nat.zero_mul, Nat.sub_zero, Nat.zero_add, left, ← blockPages_eq] at run
  rw [programBlocks_erase more good, pages, run]
  simp only [perform, each, bind_assoc, pure_bind]

def goodAmong (dev : MtdNand) (block k : Nat) : List Nat :=
  (List.range' block k).filter dev.checkBlock

theorem layoutIn_zero (blocks : List Nat) (off : Nat) : dev.layoutIn child blocks off 0 = [] := by
  cases blocks with
  | nil => rfl
  | cons block blocks => rw [layoutIn, if_pos rfl]

theorem programBlocks_run {k : Nat} (inWord : block + k ≤ 2 ^ 32)
    (counts : total = idx + (remain + dev.eraseSize - 1) / dev.eraseSize)
    (fits : remain ≠ 0 → idx * dev.eraseSize + remain + dev.eraseSize - 1 < 2 ^ 32) :
    ∃ idx', total = idx' + (remain - (dev.goodAmong block k).length * dev.eraseSize +
        dev.eraseSize - 1) / dev.eraseSize ∧
      ∀ fuel, dev.programBlocks pageBuffer child total (fuel + 1 + k) (block % 2 ^ 32) idx remain =
        (dev.perform pageBuffer (dev.layoutIn child (dev.goodAmong block k) (idx * dev.eraseSize)
          remain) >>= fun _ =>
          dev.programBlocks pageBuffer child total (fuel + 1) ((block + k) % 2 ^ 32) idx'
            (remain - (dev.goodAmong block k).length * dev.eraseSize)) := by
  induction k generalizing block idx remain with
  | zero =>
    refine ⟨idx, by simpa [goodAmong] using counts, fun fuel => ?_⟩
    simp [goodAmong, layoutIn, perform, each]
  | succ k ih =>
    have shift : block + 1 + k = block + (k + 1) := by omega
    have here : block % 2 ^ 32 = block := Nat.mod_eq_of_lt (by omega)
    by_cases done : remain = 0
    · subst done
      refine ⟨idx, by simpa using counts, fun fuel => ?_⟩
      have stop : total ≤ idx := by
        rw [Nat.zero_add, Nat.div_eq_of_lt (by have := dev.eraseSize_pos; omega)] at counts
        omega
      rw [layoutIn_zero, perform, each, pure_bind, Nat.zero_sub, ← Nat.add_assoc,
        programBlocks_stop stop, programBlocks_stop stop]
    · have more : idx < total := by
        rw [counts, blocks_sub (by omega)]
        exact Nat.lt_add_of_pos_right (Nat.succ_pos _)
      by_cases good : dev.checkBlock block = true
      · have found : dev.goodAmong block (k + 1) = block :: dev.goodAmong (block + 1) k := by
          rw [goodAmong, List.range'_succ, List.filter_cons_of_pos good, goodAmong]
        have after : (idx + 1) * dev.eraseSize = idx * dev.eraseSize + dev.eraseSize :=
          Nat.succ_mul _ _
        rw [blocks_sub (by omega)] at counts
        obtain ⟨idx', counts', run⟩ := @ih (block + 1) (idx + 1) (remain - dev.eraseSize) (by omega)
          (by rw [counts, ← Nat.add_assoc, Nat.add_right_comm]) (fun _ => by have := fits done; omega)
        have less : remain - dev.eraseSize - (dev.goodAmong (block + 1) k).length * dev.eraseSize =
            remain - (dev.goodAmong block (k + 1)).length * dev.eraseSize := by
          rw [found, List.length_cons, Nat.succ_mul]
          omega
        rw [less] at counts' run
        refine ⟨idx', counts', fun fuel => ?_⟩
        rw [here, ← Nat.add_assoc, programBlocks_good more good (fits done), run, after, shift,
          found, layoutIn, if_neg done, perform, perform, perform, each_append,
          bind_assoc]
      · have found : dev.goodAmong block (k + 1) = dev.goodAmong (block + 1) k := by
          rw [goodAmong, List.range'_succ, List.filter_cons_of_neg good, goodAmong]
        obtain ⟨idx', counts', run⟩ := @ih (block + 1) idx remain (by omega) counts fits
        rw [← found] at counts' run
        refine ⟨idx', counts', fun fuel => ?_⟩
        rw [here, ← Nat.add_assoc, programBlocks_skip more good, run, shift]

end Run

section Perform

variable {dev} {pageBuffer : Bool} {c : MtdCmd} {cmds log mid : List MtdCmd}

def Done (dev : MtdNand) (before : List MtdCmd) (c : MtdCmd) : Prop :=
  dev.does (before ++ [c]) = true

theorem command_run (c : MtdCmd) (log : List MtdCmd) :
    dev.command pageBuffer c log = (.error .crashed, log) ∨
      dev.Done log c ∧ dev.command pageBuffer c log = (.ok (), log ++ [c]) ∨
      ¬dev.Done log c ∧ dev.command pageBuffer c log = (.error .failed, log ++ [c]) := by
  have issued : (issue c dev.does >>= fun done => if done then pure () else fail .failed : Mtd Unit)
      log = (if dev.does (log ++ [c]) then .ok () else .error .failed, log ++ [c]) := by
    rw [bind_ok (issue_apply c dev.does log)]
    split_ifs <;> rfl
  by_cases done : dev.does (log ++ [c]) = true
  · rw [if_pos done] at issued
    cases c with
    | erase block => exact .inr (.inl ⟨done, issued⟩)
    | write page data =>
      cases pageBuffer with
      | false => exact .inl rfl
      | true => exact .inr (.inl ⟨done, issued⟩)
  · rw [if_neg done] at issued
    cases c with
    | erase block => exact .inr (.inr ⟨done, issued⟩)
    | write page data =>
      cases pageBuffer with
      | false => exact .inl rfl
      | true => exact .inr (.inr ⟨done, issued⟩)

theorem erase_logged (block : Nat) (log : List MtdCmd) :
    (dev.command pageBuffer (.erase block) log).2 = log ++ [.erase block] := by
  rw [command, bind_ok (issue_apply _ dev.does log)]
  split_ifs <;> rfl

theorem perform_cons (c : MtdCmd) (cmds : List MtdCmd) : dev.perform pageBuffer (c :: cmds) =
    (dev.command pageBuffer c >>= fun _ => dev.perform pageBuffer cmds) := rfl

theorem perform_grows (cmds log : List MtdCmd) :
    ∃ new, (dev.perform pageBuffer cmds log).2 = log ++ new ∧ new <+: cmds := by
  induction cmds generalizing log with
  | nil => exact ⟨[], (List.append_nil log).symm, List.prefix_refl _⟩
  | cons c cmds ih =>
    rw [perform_cons]
    rcases @command_run dev pageBuffer c log with run | ⟨-, run⟩ | ⟨-, run⟩
    · rw [bind_error run]
      exact ⟨[], (List.append_nil log).symm, List.nil_prefix⟩
    · rw [bind_ok run]
      obtain ⟨new, grown, part⟩ := ih (log ++ [c])
      exact ⟨c :: new, by rw [grown, List.append_assoc]; rfl,
        List.cons_prefix_cons.mpr ⟨rfl, part⟩⟩
    · rw [bind_error run]
      exact ⟨[c], rfl, List.cons_prefix_cons.mpr ⟨rfl, List.nil_prefix⟩⟩

theorem perform_extends (cmds log : List MtdCmd) : log <+: (dev.perform pageBuffer cmds log).2 := by
  obtain ⟨new, grown, -⟩ := @perform_grows dev pageBuffer cmds log
  exact ⟨new, grown.symm⟩

theorem perform_ends (cmds log : List MtdCmd) :
    (dev.perform pageBuffer cmds log).1 ≠ .error .running := by
  induction cmds generalizing log with
  | nil => exact nofun
  | cons c cmds ih =>
    rw [perform_cons]
    rcases @command_run dev pageBuffer c log with run | ⟨-, run⟩ | ⟨-, run⟩
    · rw [bind_error run]
      exact nofun
    · rw [bind_ok run]
      exact ih _
    · rw [bind_error run]
      exact nofun

theorem perform_ok (run : dev.perform pageBuffer cmds log = (.ok (), mid)) :
    mid = log ++ cmds ∧ AllMet dev.Done log mid := by
  induction cmds generalizing log with
  | nil =>
    cases run
    exact ⟨(List.append_nil _).symm, .refl⟩
  | cons c cmds ih =>
    rw [perform_cons] at run
    rcases @command_run dev pageBuffer c log with first | ⟨done, first⟩ | ⟨-, first⟩
    · rw [bind_error first] at run
      cases run
    · rw [bind_ok first] at run
      obtain ⟨same, all⟩ := ih run
      have parts : log ++ [c] <+: mid := ⟨cmds, same.symm⟩
      refine ⟨by rw [same, List.append_assoc]; rfl, ?_⟩
      rw [allMet_trans (List.prefix_append _ _) parts, allMet_single]
      exact ⟨done, all⟩
    · rw [bind_error first] at run
      cases run

theorem perform_failed (run : dev.perform pageBuffer cmds log = (.error .failed, mid)) :
    ¬AllMet dev.Done log mid := by
  induction cmds generalizing log with
  | nil => cases run
  | cons c cmds ih =>
    rw [perform_cons] at run
    rcases @command_run dev pageBuffer c log with first | ⟨-, first⟩ | ⟨refused, first⟩
    · rw [bind_error first] at run
      cases run
    · rw [bind_ok first] at run
      have parts := @perform_extends dev pageBuffer cmds (log ++ [c])
      rw [run] at parts
      rw [allMet_trans (List.prefix_append _ _) parts]
      exact fun all => ih run all.2
    · rw [bind_error first] at run
      cases run
      rw [allMet_single]
      exact refused

end Perform

section Fuel

variable {dev} {pageBuffer : Bool} {child : PackChild} {total fuel fuel' : Nat}

theorem programBlocks_step (fuel block idx remain : Nat) :
    Approx .running (dev.programBlocks pageBuffer child total fuel block idx remain)
      (dev.programBlocks pageBuffer child total (fuel + 1) block idx remain) := by
  induction fuel generalizing block idx remain with
  | zero => exact fun log => .inl rfl
  | succ fuel ih =>
    by_cases more : idx < total
    · by_cases good : dev.checkBlock block = true
      · rw [programBlocks_erase more good, programBlocks_erase more good]
        exact Approx.refl.bind fun _ => Approx.refl.bind fun _ => ih _ _ _
      · rw [programBlocks_skip more good, programBlocks_skip more good]
        exact ih _ _ _
    · rw [programBlocks_stop (by omega), programBlocks_stop (by omega)]
      exact .refl

theorem programBlocks_more (h : fuel ≤ fuel') (block idx remain : Nat) :
    Approx .running (dev.programBlocks pageBuffer child total fuel block idx remain)
      (dev.programBlocks pageBuffer child total fuel' block idx remain) := by
  induction h with
  | refl => exact .refl
  | step _ ih => exact ih.trans (programBlocks_step _ _ _ _)

theorem programChild_more (h : fuel ≤ fuel') (child : PackChild) :
    Approx .running (dev.programChild pageBuffer fuel child)
      (dev.programChild pageBuffer fuel' child) := by
  unfold programChild
  by_cases refused : child.flashAddress.toNat ≠ rtAlign child.flashAddress.toNat dev.eraseSize
  · simp only [if_pos refused]
    exact .refl
  · simp only [if_neg refused]
    exact programBlocks_more h _ _ _

theorem issues_command (c : MtdCmd) : Issues (fun _ => True) (dev.command pageBuffer c) := by
  intro log
  rcases @command_run dev pageBuffer c log with run | ⟨-, run⟩ | ⟨-, run⟩
  · exact ⟨[], by rw [run, List.append_nil], fun _ _ => trivial⟩
  · exact ⟨[c], by rw [run], fun _ _ => trivial⟩
  · exact ⟨[c], by rw [run], fun _ _ => trivial⟩

theorem issues_programPages (pageOff idx n pageIdx remain : Nat) : Issues (fun _ => True)
    (dev.programPages pageBuffer child pageOff idx n pageIdx remain) := by
  induction n generalizing pageIdx remain with
  | zero => exact .pure _
  | succ n ih => exact (issues_command _).bind fun _ => ih _ _

theorem issues_programBlocks (fuel block idx remain : Nat) : Issues (fun _ => True)
    (dev.programBlocks pageBuffer child total fuel block idx remain) := by
  induction fuel generalizing block idx remain with
  | zero => exact .fail _
  | succ fuel ih =>
    by_cases more : idx < total
    · by_cases good : dev.checkBlock block = true
      · rw [programBlocks_erase more good]
        exact (issues_command _).bind fun _ => (issues_programPages _ _ _ _ _).bind fun _ => ih _ _ _
      · rw [programBlocks_skip more good]
        exact ih _ _ _
    · rw [programBlocks_stop (by omega)]
      exact .pure _

theorem programBlocks_touches {block idx remain : Nat} {log : List MtdCmd} (more : idx < total)
    (ends : (dev.programBlocks pageBuffer child total fuel block idx remain log).1 ≠
      .error .running) : ∃ b, log ++ [.erase b] <+:
        (dev.programBlocks pageBuffer child total fuel block idx remain log).2 := by
  induction fuel generalizing block with
  | zero => exact absurd rfl ends
  | succ fuel ih =>
    by_cases good : dev.checkBlock block = true
    swap
    · rw [programBlocks_skip more good] at ends ⊢
      exact ih ends
    · rw [programBlocks_erase more good]
      refine ⟨block, ?_⟩
      have logged := @erase_logged dev pageBuffer block log
      rcases first : dev.command pageBuffer (.erase block) log with ⟨exit | done, log'⟩
      · rw [first] at logged
        rw [bind_error first, ← logged]
      · rw [first] at logged
        rw [bind_ok first, ← logged]
        exact ((issues_programPages _ _ _ _ _).bind fun _ => issues_programBlocks _ _ _ _).grows _

end Fuel

section Erases

variable {dev} {child : PackChild} {blocks : List Nat} {n off : Nat}

theorem erases_layoutIn (blocks : List Nat) (off n : Nat) :
    (dev.layoutIn child blocks off n).countP MtdCmd.isErase =
      min blocks.length ((n + dev.eraseSize - 1) / dev.eraseSize) := by
  have pos := dev.eraseSize_pos
  induction blocks generalizing off n with
  | nil => simp [layoutIn]
  | cons block blocks ih =>
    by_cases done : n = 0
    · subst done
      rw [layoutIn_zero, Nat.zero_add, Nat.div_eq_of_lt (by omega), Nat.min_zero, List.countP_nil]
    · have pages : (dev.blockPages child block off (min n dev.eraseSize)).countP MtdCmd.isErase = 0 := by
        rw [List.countP_eq_zero]
        intro c inside
        obtain ⟨page, -, rfl⟩ := List.mem_map.mp inside
        exact Bool.false_ne_true
      have one := @blocks_sub dev n (by omega)
      rw [layoutIn, if_neg done, List.cons_append, List.countP_cons_of_pos rfl, List.countP_append,
        pages, ih, one, List.length_cons, Nat.zero_add, Nat.add_min_add_right]

theorem head_layoutIn {c : MtdCmd} {new : List MtdCmd}
    (part : c :: new <+: dev.layoutIn child blocks off n) : ∃ block ∈ blocks, c = .erase block := by
  cases blocks with
  | nil => exact absurd (List.prefix_nil.mp part) (List.cons_ne_nil _ _)
  | cons block blocks =>
    rw [layoutIn] at part
    split_ifs at part
    · exact absurd (List.prefix_nil.mp part) (List.cons_ne_nil _ _)
    · exact ⟨block, List.mem_cons_self, (List.cons_prefix_cons.mp part).1⟩

end Erases

section Child

variable {dev} {pageBuffer : Bool} {child : PackChild} {log : List MtdCmd} {fuel : Nat}

theorem mem_room {block : Nat} (inside : block ∈ dev.room child) : dev.blockStart ≤ block := by
  have met := (List.mem_filter.mp inside).2
  rw [Bool.and_eq_true] at met
  exact of_decide_eq_true met.1

def looks (dev : MtdNand) (child : PackChild) : Nat :=
  dev.blockEnd + 1 - child.flashAddress.toNat / dev.eraseSize

theorem goodAmong_room (clear : ∀ b, child.flashAddress.toNat / dev.eraseSize ≤ b →
    b < dev.blockStart → dev.checkBlock b = false) :
    dev.goodAmong (child.flashAddress.toNat / dev.eraseSize) (dev.looks child) =
      dev.room child := by
  refine List.filter_congr fun b inside => ?_
  by_cases low : b < dev.blockStart
  · rw [clear b (List.mem_range'_1.mp inside).1 low, Bool.and_false]
  · rw [decide_eq_true (by omega : dev.blockStart ≤ b), Bool.true_and]

theorem programChild_refused (refused : ¬dev.Accepts child) :
    dev.programChild pageBuffer fuel child log = (.error .failed, log) := by
  unfold programChild
  rw [if_pos (accepts_iff.not.mpr refused)]
  rfl

theorem programChild_empty (accepted : dev.Accepts child) (empty : dev.counted child = 0) :
    dev.programChild pageBuffer (fuel + 1) child = pure () := by
  unfold programChild
  rw [if_neg (not_not.mpr (accepts_iff.mpr accepted)), totalBlock_eq, empty, Nat.zero_add,
    Nat.div_eq_of_lt (by have := dev.eraseSize_pos; omega), programBlocks_stop (Nat.zero_le _)]

theorem programChild_run (accepted : dev.Accepts child) (some : dev.counted child ≠ 0) :
    ∃ total idx, ∃ found, found = dev.goodAmong (child.flashAddress.toNat / dev.eraseSize)
        (dev.looks child) ∧
      total = idx + (dev.counted child - found.length * dev.eraseSize + dev.eraseSize - 1) /
        dev.eraseSize ∧
      ∀ fuel, dev.programChild pageBuffer (fuel + 1 + dev.looks child) child =
        (dev.perform pageBuffer (dev.layoutIn child found 0 (dev.counted child)) >>= fun _ =>
          dev.programBlocks pageBuffer child total (fuel + 1)
            ((child.flashAddress.toNat / dev.eraseSize + dev.looks child) % 2 ^ 32) idx
            (dev.counted child - found.length * dev.eraseSize)) := by
  have fits : child.imageLength.toNat % 2 ^ 32 + dev.eraseSize - 1 < 2 ^ 32 := by
    by_contra wraps
    exact some (if_neg wraps)
  have low : dev.counted child = child.imageLength.toNat % 2 ^ 32 := if_pos fits
  have last : dev.blockEnd + 1 ≤ 2 ^ 32 :=
    le_trans (Nat.le_mul_of_pos_right _ (Nat.two_pow_pos _)) dev.pagesFit
  have start : child.flashAddress.toNat / dev.eraseSize < 2 ^ 32 :=
    lt_of_le_of_lt (Nat.div_le_self _ _) accepted.2
  have inWord : child.flashAddress.toNat / dev.eraseSize + dev.looks child ≤ 2 ^ 32 := by
    unfold looks
    omega
  obtain ⟨idx, counts, run⟩ := @programBlocks_run dev pageBuffer child
    (child.flashAddress.toNat / dev.eraseSize) 0
    ((dev.counted child + dev.eraseSize - 1) / dev.eraseSize) (dev.counted child)
    (dev.looks child) inWord (Nat.zero_add _).symm
    (fun _ => by rw [Nat.zero_mul, Nat.zero_add, low]; exact fits)
  refine ⟨_, idx, _, rfl, counts, fun fuel => ?_⟩
  rw [Nat.zero_mul] at run
  rw [← run fuel, programChild, if_neg (not_not.mpr (accepts_iff.mpr accepted)), totalBlock_eq, low]

theorem programChild_stays (accepted : dev.Accepts child) (stays : dev.Stays pageBuffer child log) :
    ∃ enough, ∀ fuel, enough ≤ fuel → dev.programChild pageBuffer fuel child log =
      dev.perform pageBuffer (dev.layout child (dev.counted child)) log := by
  by_cases empty : dev.counted child = 0
  · refine ⟨1, fun fuel enough => ?_⟩
    obtain ⟨more, rfl⟩ := Nat.exists_eq_add_of_le' enough
    rw [programChild_empty accepted empty, empty, layout, layoutIn_zero]
    rfl
  · obtain ⟨clear, outcome⟩ := stays.resolve_left empty
    obtain ⟨total, idx, found, same, counts, run⟩ :=
      @programChild_run dev pageBuffer child accepted empty
    rw [goodAmong_room clear] at same
    subst same
    refine ⟨1 + dev.looks child, fun fuel enough => ?_⟩
    obtain ⟨more, rfl⟩ := Nat.exists_eq_add_of_le' enough
    rw [← Nat.add_assoc, run more]
    change (dev.perform pageBuffer (dev.layout child (dev.counted child)) >>= _) log = _
    rcases result : dev.perform pageBuffer (dev.layout child (dev.counted child)) log with
      ⟨exit | done, mid⟩
    · exact bind_error result
    · rw [result] at outcome
      have none : dev.counted child - (dev.room child).length * dev.eraseSize = 0 :=
        Nat.sub_eq_zero_of_le outcome
      rw [none, Nat.zero_add,
        Nat.div_eq_of_lt (by have := dev.eraseSize_pos; omega : dev.eraseSize - 1 < _)] at counts
      rw [bind_ok result, programBlocks_stop (by omega)]
      rfl

theorem not_placed_of_outside {block : Nat} {log' : List MtdCmd} (outside : block ∉ dev.room child)
    (touched : log ++ [.erase block] <+: log') : ¬dev.Placed child log log' := by
  rintro ⟨n, -, new, rfl, part⟩
  obtain ⟨more, same⟩ := (List.prefix_append_right_inj log).mp touched
  rw [← same] at part
  obtain ⟨b, inside, head⟩ := head_layoutIn part
  cases head
  exact outside inside

theorem not_placed_of_full {block n : Nat} {log' : List MtdCmd}
    (full : (dev.room child).length * dev.eraseSize < n)
    (touched : log ++ dev.layout child n ++ [.erase block] <+: log') :
    ¬dev.Placed child log log' := by
  rintro ⟨m, -, new, rfl, part⟩
  rw [List.append_assoc] at touched
  have longer := ((List.prefix_append_right_inj log).mp touched).trans part
  have counts : (dev.layout child n ++ [MtdCmd.erase block]).countP MtdCmd.isErase ≤
      (dev.layout child m).countP MtdCmd.isErase := longer.sublist.countP_le
  have enough : (dev.room child).length ≤ (n + dev.eraseSize - 1) / dev.eraseSize := by
    rw [Nat.le_div_iff_mul_le dev.eraseSize_pos]
    have := dev.eraseSize_pos
    omega
  rw [List.countP_append, layout, layout, erases_layoutIn, erases_layoutIn,
    Nat.min_eq_left enough] at counts
  have one : [MtdCmd.erase block].countP MtdCmd.isErase = 1 := rfl
  have least := Nat.min_le_left (dev.room child).length ((m + dev.eraseSize - 1) / dev.eraseSize)
  omega

theorem programChild_strays (accepted : dev.Accepts child)
    (strays : ¬dev.Stays pageBuffer child log)
    (ends : (dev.programChild pageBuffer fuel child log).1 ≠ .error .running)
    (sound : (dev.programChild pageBuffer fuel child log).1 ≠ .error .crashed) :
    ¬dev.Placed child log (dev.programChild pageBuffer fuel child log).2 := by
  have some : dev.counted child ≠ 0 := fun empty => strays (.inl empty)
  obtain ⟨total, idx, found, same, counts, run⟩ :=
    @programChild_run dev pageBuffer child accepted some
  have longer := (@programChild_more dev pageBuffer fuel (fuel + 1 + dev.looks child) (by omega)
    child log).resolve_left ends
  rw [longer, run fuel] at sound ⊢
  rw [longer, run fuel] at ends
  by_cases clear : ∀ b, child.flashAddress.toNat / dev.eraseSize ≤ b → b < dev.blockStart →
      dev.checkBlock b = false
  · rw [goodAmong_room clear] at same
    subst same
    rcases result : dev.perform pageBuffer (dev.layout child (dev.counted child)) log with
      ⟨exit | done, mid⟩
    · rw [layout] at result
      rw [bind_error result] at sound
      have running := @perform_ends dev pageBuffer (dev.layout child (dev.counted child)) log
      rw [layout, result] at running
      cases exit with
      | failed => exact absurd (.inr ⟨clear, by rw [layout, result]⟩) strays
      | crashed => exact absurd rfl sound
      | running => exact absurd rfl running
    · have full : (dev.room child).length * dev.eraseSize < dev.counted child := by
        by_contra fits
        exact strays (.inr ⟨clear, by rw [result]; exact Nat.le_of_not_lt fits⟩)
      have written := (perform_ok result).1
      rw [layout] at result
      rw [bind_ok result] at ends ⊢
      have more : idx < total := by
        rw [counts, blocks_sub (by omega)]
        exact Nat.lt_add_of_pos_right (Nat.succ_pos _)
      obtain ⟨b, touched⟩ := programBlocks_touches more ends
      rw [written] at touched
      rw [written]
      exact not_placed_of_full full touched
  · push Not at clear
    obtain ⟨b, above, before, good⟩ := clear
    replace good := Bool.eq_true_of_not_eq_false good
    have upTo : b ≤ dev.blockEnd := by
      rw [checkBlock, Bool.and_eq_true] at good
      exact of_decide_eq_true good.1
    have inside : b ∈ found := by
      rw [same]
      exact List.mem_filter.mpr ⟨List.mem_range'_1.mpr ⟨above, by unfold looks; omega⟩, good⟩
    have ordered : found.Pairwise (· < ·) := by
      rw [same]
      exact (List.pairwise_lt_range' _).filter _
    cases found with
    | nil => cases inside
    | cons first rest =>
      have low : first ≤ b := by
        rcases List.mem_cons.mp inside with here | later
        · exact le_of_eq here.symm
        · exact le_of_lt (List.rel_of_pairwise_cons ordered later)
      have outside : first ∉ dev.room child := fun room => by
        have := mem_room room
        omega
      refine not_placed_of_outside outside ?_
      · rw [layoutIn, if_neg some, List.cons_append, perform_cons, bind_assoc]
        have logged := @erase_logged dev pageBuffer first log
        rcases run : dev.command pageBuffer (.erase first) log with ⟨exit | done, mid⟩
        · rw [run] at logged
          rw [bind_error run, ← logged]
        · rw [run] at logged
          rw [bind_ok run, ← logged]
          exact ((Issues.each fun c _ => issues_command c).bind fun _ =>
            issues_programBlocks _ _ _ _).grows _

end Child

section Pack

variable {dev} {pageBuffer : Bool} {child : PackChild} {children : List PackChild}
  {log : List MtdCmd} {fuel : Nat}

def programChildren (dev : MtdNand) (pageBuffer : Bool) (fuel : Nat) (children : List PackChild) :
    Mtd Unit := each (dev.programChild pageBuffer fuel) children

/-- The children's loop has ended, for one reason or the other, where the program goes on. -/
def Ends (dev : MtdNand) (pageBuffer : Bool) (fuel : Nat) (children : List PackChild)
    (log : List MtdCmd) : Prop :=
  (dev.programChildren pageBuffer fuel children log).1 = .ok () ∨
    (dev.programChildren pageBuffer fuel children log).1 = .error .failed

theorem nuwriterPackProgramMtd_iff {ret : Int} {log' : List MtdCmd} :
    dev.nuwriterPackProgramMtd pageBuffer fuel children log = (.ok ret, log') ↔
      dev.Ends pageBuffer fuel children.reverse log ∧ ret = -1 ∧
        log' = (dev.programChildren pageBuffer fuel children.reverse log).2 := by
  unfold nuwriterPackProgramMtd Ends programChildren
  rcases each (dev.programChild pageBuffer fuel) children.reverse log with ⟨exit | done, mid⟩
  · cases exit <;> simp [eq_comm]
  · simp [eq_comm]

theorem ends_cons : dev.Ends pageBuffer fuel (child :: children) log ↔
    (dev.programChild pageBuffer fuel child log).1 = .error .failed ∨
      (dev.programChild pageBuffer fuel child log).1 = .ok () ∧
        dev.Ends pageBuffer fuel children (dev.programChild pageBuffer fuel child log).2 := by
  unfold Ends programChildren
  rw [each]
  rcases run : dev.programChild pageBuffer fuel child log with ⟨exit | done, mid⟩
  · rw [bind_error run]
    simp
  · rw [bind_ok run]
    simp

theorem placed_perform {n : Nat} (upTo : n ≤ child.imageLength.toNat) :
    dev.Placed child log (dev.perform pageBuffer (dev.layout child n) log).2 := by
  obtain ⟨new, grown, part⟩ := @perform_grows dev pageBuffer (dev.layout child n) log
  exact ⟨n, upTo, new, grown, part⟩

theorem counted_le : dev.counted child ≤ child.imageLength.toNat := by
  unfold counted
  split_ifs
  · exact Nat.mod_le _ _
  · exact Nat.zero_le _

theorem counted_short (short : dev.counted child ≠ child.imageLength.toNat) :
    (dev.counted child + dev.eraseSize - 1) / dev.eraseSize <
      (child.imageLength.toNat + dev.eraseSize - 1) / dev.eraseSize := by
  have pos := dev.eraseSize_pos
  have narrow : dev.eraseSize < 2 ^ 32 := by
    rw [dev.eraseSize_eq]
    exact Nat.pow_lt_pow_right (by decide) dev.inSpace
  have less := @counted_le dev child
  by_cases wide : dev.counted child + dev.eraseSize ≤ child.imageLength.toNat
  · have parts : (dev.counted child + dev.eraseSize + dev.eraseSize - 1) / dev.eraseSize =
        (dev.counted child + dev.eraseSize - 1) / dev.eraseSize + 1 := by
      rw [show dev.counted child + dev.eraseSize + dev.eraseSize - 1 =
        dev.counted child + dev.eraseSize - 1 + dev.eraseSize by omega, Nat.add_div_right _ pos]
    have mono : (dev.counted child + dev.eraseSize + dev.eraseSize - 1) / dev.eraseSize ≤
        (child.imageLength.toNat + dev.eraseSize - 1) / dev.eraseSize :=
      Nat.div_le_div_right (by omega)
    omega
  · have empty : dev.counted child = 0 := by
      unfold counted at wide short ⊢
      split_ifs at wide short ⊢
      · omega
      · rfl
    have one : 1 ≤ (child.imageLength.toNat + dev.eraseSize - 1) / dev.eraseSize := by
      rw [Nat.le_div_iff_mul_le pos]
      omega
    rw [empty, Nat.zero_add, Nat.div_eq_of_lt (by omega)]
    exact one

theorem stays_ends (stays : dev.Stays pageBuffer child log) :
    (dev.perform pageBuffer (dev.layout child (dev.counted child)) log).1 = .ok () ∨
      (dev.perform pageBuffer (dev.layout child (dev.counted child)) log).1 = .error .failed := by
  rcases stays with empty | ⟨-, outcome⟩
  · left
    rw [empty, layout, layoutIn_zero]
    rfl
  · rcases result : (dev.perform pageBuffer (dev.layout child (dev.counted child)) log).1 with
      exit | done
    · rw [result] at outcome
      exact .inr (congrArg Except.error outcome)
    · exact .inl rfl

theorem whole_perform (stays : dev.Stays pageBuffer child log)
    (whole : dev.Whole child log
      (dev.perform pageBuffer (dev.layout child (dev.counted child)) log).2) :
    dev.counted child = child.imageLength.toNat ∧
      (dev.perform pageBuffer (dev.layout child (dev.counted child)) log).1 = .ok () := by
  obtain ⟨-, fits, written, all⟩ := whole
  constructor
  · by_contra short
    obtain ⟨new, grown, part⟩ :=
      @perform_grows dev pageBuffer (dev.layout child (dev.counted child)) log
    rw [grown] at written
    have same := List.append_cancel_left written
    have counts : new.countP MtdCmd.isErase ≤
        (dev.layout child (dev.counted child)).countP MtdCmd.isErase := part.sublist.countP_le
    rw [same, layout, layout, erases_layoutIn, erases_layoutIn] at counts
    have missing := counted_short short
    have enough : (child.imageLength.toNat + dev.eraseSize - 1) / dev.eraseSize ≤
        (dev.room child).length := by
      rw [← Nat.lt_succ_iff, Nat.div_lt_iff_lt_mul dev.eraseSize_pos, Nat.succ_mul]
      have := dev.eraseSize_pos
      omega
    omega
  · rcases stays_ends stays with ok | failed
    · exact ok
    · rcases run : dev.perform pageBuffer (dev.layout child (dev.counted child)) log with ⟨r, mid⟩
      rw [run] at failed all
      simp only at failed
      subst failed
      exact absurd all (perform_failed run)

theorem runStays_ends (children : List PackChild) (log : List MtdCmd)
    (stays : dev.RunStays pageBuffer children log) : ∃ enough, ∀ fuel, enough ≤ fuel →
      dev.Ends pageBuffer fuel children log ∧ dev.EachPlaced pageBuffer fuel children log ∧
        (dev.AllWhole pageBuffer fuel children log → dev.Complete pageBuffer children log) := by
  induction children generalizing log with
  | nil => exact ⟨0, fun fuel _ => ⟨.inl rfl, trivial, fun _ => trivial⟩⟩
  | cons child children ih =>
    by_cases accepted : dev.Accepts child
    · obtain ⟨here, rest⟩ := stays accepted
      obtain ⟨enough, run⟩ := programChild_stays accepted here
      rcases result : dev.perform pageBuffer (dev.layout child (dev.counted child)) log with ⟨r, mid⟩
      rcases stays_ends here with ok | failed
      · rw [result] at ok
        simp only at ok
        subst ok
        obtain ⟨more, later⟩ := ih mid (rest mid result)
        refine ⟨max enough more, fun fuel h => ?_⟩
        obtain ⟨ends, placed, whole⟩ := later fuel (le_trans (Nat.le_max_right _ _) h)
        have same := run fuel (le_trans (Nat.le_max_left _ _) h)
        have first := same.trans result
        refine ⟨ends_cons.mpr (.inr ⟨by rw [first], by rw [first]; exact ends⟩), ⟨?_, ?_⟩, ?_⟩
        · rw [same]
          exact placed_perform counted_le
        · rw [first]
          exact fun _ => placed
        · rintro ⟨wholeHere, wholeRest⟩
          rw [first] at wholeRest
          rw [same] at wholeHere
          obtain ⟨counts, -⟩ := whole_perform here wholeHere
          exact ⟨accepted, counts, wholeHere.2.1, mid, by rw [← counts]; exact result,
            whole wholeRest⟩
      · rw [result] at failed
        simp only at failed
        subst failed
        refine ⟨enough, fun fuel h => ?_⟩
        have same := run fuel h
        have first := same.trans result
        refine ⟨ends_cons.mpr (.inl (by rw [first])), ⟨?_, ?_⟩, ?_⟩
        · rw [same]
          exact placed_perform counted_le
        · rw [first]
          exact nofun
        · rintro ⟨wholeHere, -⟩
          rw [same] at wholeHere
          have ok := (whole_perform here wholeHere).2
          rw [result] at ok
          cases ok
    · refine ⟨0, fun fuel _ => ?_⟩
      have first := @programChild_refused dev pageBuffer child log fuel accepted
      refine ⟨ends_cons.mpr (.inl (by rw [first])), ⟨?_, ?_⟩, ?_⟩
      · rw [first]
        exact ⟨0, Nat.zero_le _, [], (List.append_nil _).symm, List.nil_prefix⟩
      · rw [first]
        exact nofun
      · exact fun whole => absurd whole.1.1 accepted

theorem runStays_of_placed (children : List PackChild) (log : List MtdCmd)
    (ends : dev.Ends pageBuffer fuel children log)
    (placed : dev.EachPlaced pageBuffer fuel children log) :
    dev.RunStays pageBuffer children log ∧
      (dev.Complete pageBuffer children log → dev.AllWhole pageBuffer fuel children log) := by
  induction children generalizing log with
  | nil => exact ⟨trivial, fun _ => trivial⟩
  | cons child children ih =>
    obtain ⟨placedHere, placedRest⟩ := placed
    have ended := ends_cons.mp ends
    have running : (dev.programChild pageBuffer fuel child log).1 ≠ .error .running := by
      rcases ended with failed | ⟨ok, -⟩
      · simp [failed]
      · simp [ok]
    have stays (accepted : dev.Accepts child) : dev.Stays pageBuffer child log := by
      by_contra strays
      refine programChild_strays accepted strays running ?_ placedHere
      rcases ended with failed | ⟨ok, -⟩
      · simp [failed]
      · simp [ok]
    have run (accepted : dev.Accepts child) : dev.programChild pageBuffer fuel child log =
        dev.perform pageBuffer (dev.layout child (dev.counted child)) log := by
      obtain ⟨enough, same⟩ := programChild_stays accepted (stays accepted)
      rw [← same _ (Nat.le_max_right fuel enough)]
      exact (programChild_more (Nat.le_max_left _ _) child log).resolve_left running
    have rest (accepted : dev.Accepts child) {mid : List MtdCmd}
        (result : dev.perform pageBuffer (dev.layout child (dev.counted child)) log =
          (.ok (), mid)) := by
      have first := (run accepted).trans result
      rw [first] at placedRest ended
      exact ih mid (ended.resolve_left nofun).2 (placedRest rfl)
    refine ⟨fun accepted => ⟨stays accepted, fun mid result => (rest accepted result).1⟩, ?_⟩
    rintro ⟨accepted, counts, fits, mid, result, complete⟩
    rw [← counts] at result
    have first := (run accepted).trans result
    obtain ⟨written, all⟩ := perform_ok result
    rw [counts] at written
    refine ⟨?_, ?_⟩
    · rw [first]
      exact ⟨accepted, fits, written, all⟩
    · rw [first]
      exact (rest accepted result).2 complete

/-- The program is right exactly where every child stays in its place and one at least is not written
whole: the result is never 0. -/
theorem programs_right_iff (pageBuffer : Bool) (children : List PackChild) (log : List MtdCmd) :
    dev.ProgramsRight pageBuffer children log ↔
      dev.RunStays pageBuffer children.reverse log ∧
        ¬dev.Complete pageBuffer children.reverse log := by
  constructor
  · rintro ⟨fuel, ret, log', run, placed, outcome⟩
    obtain ⟨ends, rfl, -⟩ := nuwriterPackProgramMtd_iff.mp run
    obtain ⟨stays, whole⟩ := runStays_of_placed _ _ ends placed
    exact ⟨stays, fun complete => absurd (outcome.mpr (whole complete)) (by decide)⟩
  · rintro ⟨stays, short⟩
    obtain ⟨fuel, enough⟩ := runStays_ends _ _ stays
    obtain ⟨ends, placed, whole⟩ := enough fuel le_rfl
    refine ⟨fuel, -1, _, nuwriterPackProgramMtd_iff.mpr ⟨ends, rfl, rfl⟩, placed, ?_⟩
    exact iff_of_false (by decide) fun all => short (whole all)

end Pack

def oneBlock : MtdNand where
  pageShift := 11
  blockShift := 6
  inSpace := by decide
  blockStart := 0
  blockEnd := 0
  pagesFit := by decide
  good := fun _ => true
  does := fun _ => true

def oneByte : PackChild := ⟨1, 0, fun _ => 0x55⟩

/-- The image is written whole, and the program says -1. -/
theorem whole_image_refused :
    oneBlock.nuwriterPackProgramMtd true 2 [oneByte] [] =
      (.ok (-1), [.erase 0, .write 0 [0x55]]) ∧
    ¬oneBlock.ProgramsRight true [oneByte] [] := by
  have run : oneBlock.nuwriterPackProgramMtd true 2 [oneByte] [] =
      (.ok (-1), [.erase 0, .write 0 [0x55]]) := rfl
  refine ⟨run, ?_⟩
  rintro ⟨fuel, ret, log', run', placed, outcome⟩
  obtain ⟨ends, rfl, -⟩ := nuwriterPackProgramMtd_iff.mp run'
  have complete : oneBlock.Complete true [oneByte].reverse [] :=
    ⟨⟨rfl, by decide⟩, rfl, by decide, _, rfl, trivial⟩
  exact absurd (outcome.mpr ((runStays_of_placed _ _ ends placed).2 complete)) (by decide)

end MtdNand

end NuMakerMA35
