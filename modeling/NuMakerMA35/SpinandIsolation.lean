import NuMakerMA35.Spinand

namespace NuMakerMA35

/-- The page address a command carries; an erase names its block by the first page. -/
def FlashCmd.pageAddr : FlashCmd → Option Nat
  | .pageRead a2 a1 a0 => some (a2.toNat * 65536 + a1.toNat * 256 + a0.toNat)
  | .programExecute a2 a1 a0 => some (a2.toNat * 65536 + a1.toNat * 256 + a0.toNat)
  | .blockErase a2 a1 a0 => some (a2.toNat * 65536 + a1.toNat * 256 + a0.toNat)
  | _ => none

theorem SpinandFlash.geometry (flash : SpinandFlash) :
    flash.val.pagePerBlock = 64 ∧ flash.val.pageSize = 2048 ∧ flash.val.blockPerFlash ≤ 4096 := by
  have all : ∀ info ∈ gSpinandflashList,
      info.pagePerBlock = 64 ∧ info.pageSize = 2048 ∧ info.blockPerFlash ≤ 4096 := by decide
  exact all flash.val flash.property

theorem addrBytes_toNat {page : U32} (small : page.toNat < 2 ^ 24) :
    (addrByte2 page).toNat * 65536 + (addrByte1 page).toNat * 256 + (addrByte0 page).toNat =
      page.toNat := by
  have mask (x : U32) : (x &&& 0xff).toNat = x.toNat % 256 := by
    rw [BitVec.toNat_and]
    exact Nat.and_two_pow_sub_one_eq_mod x.toNat 8
  simp only [addrByte2, addrByte1, addrByte0, BitVec.toNat_setWidth, mask, BitVec.toNat_ushiftRight,
    Nat.shiftRight_eq_div_pow]
  omega

namespace SpinandPartition

variable {flash : SpinandFlash} (dev : SpinandPartition flash)

def Holds (c : FlashCmd) : Prop :=
  ∀ page, c.pageAddr = some page →
    dev.blockStart.toNat * flash.val.pagePerBlock ≤ page ∧
      page < (dev.blockEnd.toNat + 1) * flash.val.pagePerBlock

def blockOf (page : U32) : Nat := page.toNat / flash.val.pagePerBlock

variable {dev}

theorem pageBeyond_iff {page : U32} :
    dev.pageBeyond page = true ↔ dev.blockEnd.toNat < page.toNat / 64 := by
  obtain ⟨perBlock, -, -⟩ := flash.geometry
  simp [pageBeyond, pagesPerBlock, perBlock, BitVec.lt_def]

theorem blockBeyond_iff {block : U32} :
    dev.blockBeyond block = true ↔ dev.blockEnd.toNat < block.toNat := by
  simp [blockBeyond, BitVec.lt_def]

theorem blockEnd_lt : dev.blockEnd.toNat < 4096 := by
  have onFlash := dev.onFlash
  obtain ⟨-, -, blocks⟩ := flash.geometry
  omega

theorem holds_iff {c : FlashCmd} {page : U32}
    (addr : c.pageAddr = some ((addrByte2 page).toNat * 65536 + (addrByte1 page).toNat * 256 +
      (addrByte0 page).toNat)) (upTo : page.toNat / 64 ≤ dev.blockEnd.toNat) :
    dev.Holds c ↔ dev.blockStart.toNat ≤ page.toNat / 64 := by
  obtain ⟨perBlock, -, -⟩ := flash.geometry
  have last := dev.blockEnd_lt
  have own := @addrBytes_toNat page (by omega)
  rw [own] at addr
  unfold Holds
  rw [addr, perBlock]
  constructor
  · intro all
    have inside := (all page.toNat rfl).1
    omega
  · intro start p same
    cases same
    omega

end SpinandPartition

section Issues

open Logged

variable (bus : SpinandBus) {allowed : FlashCmd → Prop}
  (harmless : ∀ c : FlashCmd, c.pageAddr = none → allowed c)

theorem issues_transfer {c : FlashCmd} (h : allowed c) : Issues allowed (transfer bus c) :=
  .issue h _

include harmless

theorem issues_isbusy : Issues allowed (spinandIsbusy bus) := by
  have poll : allowed .pollStatus := harmless _ rfl
  have loop : ∀ n, Issues allowed (isbusyLoop bus n) := by
    intro n
    induction n with
    | zero => exact .bind (issues_transfer bus poll) fun _ => .pure _
    | succ n ih =>
      refine .bind (issues_transfer bus poll) fun r => ?_
      dsimp only
      split_ifs
      · exact .pure _
      · exact .pure _
      · exact ih
  exact fun log => loop (bus.polls log) log

theorem issues_status (sel : Nat) : Issues allowed (spinandStatusRegisterRead bus sel) := by
  refine .bind (issues_transfer bus (harmless _ rfl)) fun r => ?_
  dsimp only
  split_ifs
  · exact .fail _
  · exact .pure _

theorem issues_programDataload (addrH addrL : BitVec 8) (data spare : List (BitVec 8)) :
    Issues allowed (spinandProgramDataload bus addrH addrL data spare) := by
  refine .bind (issues_transfer bus (harmless _ rfl)) fun r => ?_
  dsimp only
  split_ifs
  · exact .pure _
  · exact .bind (issues_transfer bus (harmless _ rfl)) fun _ => .pure _

theorem issues_programExecute {a2 a1 a0 : BitVec 8} (h : allowed (.programExecute a2 a1 a0)) :
    Issues allowed (spinandProgramExecute bus a2 a1 a0) := by
  refine .bind (issues_transfer bus h) fun r => ?_
  dsimp only
  split_ifs
  · exact .pure _
  · refine .bind (issues_isbusy bus harmless) fun busy => ?_
    split_ifs
    · exact .pure _
    · exact .bind (issues_status bus harmless 3) fun _ => .pure _

theorem issues_readDataload {a2 a1 a0 : BitVec 8} (h : allowed (.pageRead a2 a1 a0)) :
    Issues allowed (spinandReadDataload bus a2 a1 a0) := by
  refine .bind (issues_transfer bus h) fun r => ?_
  dsimp only
  split_ifs
  · exact .pure _
  · refine .bind (issues_isbusy bus harmless) fun busy => ?_
    split_ifs
    · exact .pure _
    · exact .bind (issues_status bus harmless 3) fun _ => .pure _

theorem issues_pageIsbad {flash : SpinandFlash} {page : U32}
    (h : allowed (.pageRead (addrByte2 page) (addrByte1 page) (addrByte0 page))) :
    Issues allowed (spinandPageIsbad bus flash page) := by
  refine .bind (issues_readDataload bus harmless h) fun r => ?_
  split_ifs
  · exact .fail _
  · refine .bind (issues_transfer bus (harmless _ rfl)) fun r => ?_
    dsimp only
    split_ifs
    · exact .fail _
    · exact .pure _

theorem issues_blockIsbad {flash : SpinandFlash} {page : U32}
    (h : allowed (.pageRead (addrByte2 page) (addrByte1 page) (addrByte0 page)))
    (next : page % BitVec.ofNat 32 (flash.val.pagePerBlock * flash.val.pageSize) = 0 →
      allowed (.pageRead (addrByte2 (page + 1)) (addrByte1 (page + 1)) (addrByte0 (page + 1)))) :
    Issues allowed (spinandBlockIsbad bus flash page) := by
  refine .bind (issues_pageIsbad bus harmless h) fun bad => ?_
  split_ifs with isBad first
  · exact .pure _
  · exact issues_pageIsbad bus harmless (next first)
  · exact .pure _

theorem issues_blockErase {page : U32}
    (h : allowed (.blockErase (addrByte2 page) (addrByte1 page) (addrByte0 page))) :
    Issues allowed (spinandBlockErase bus page) := by
  refine .bind (issues_transfer bus (harmless _ rfl)) fun r => ?_
  dsimp only
  split_ifs
  · exact .pure _
  · refine .bind (issues_transfer bus h) fun r => ?_
    split_ifs
    · exact .pure _
    · refine .bind (issues_isbusy bus harmless) fun busy => ?_
      split_ifs
      · exact .pure _
      · exact .bind (issues_status bus harmless 3) fun _ => .pure _

theorem issues_blockMarkbad {flash : SpinandFlash} {page : U32}
    (erase : allowed (.blockErase (addrByte2 page) (addrByte1 page) (addrByte0 page)))
    (program : allowed (.programExecute (addrByte2 page) (addrByte1 page) (addrByte0 page))) :
    Issues allowed (spinandBlockMarkbad bus flash page) := by
  refine .bind (issues_blockErase bus harmless erase) fun r => ?_
  split_ifs
  · exact .pure _
  · refine .bind (issues_programDataload bus harmless _ _ _ _) fun r => ?_
    split_ifs
    · exact .pure _
    · exact issues_programExecute bus harmless program

end Issues

inductive MtdOp where
  | readPage (page : U32) (dataLen spareLen : Nat)
  | writePage (page : U32) (data spare : List (BitVec 8))
  | movePage (srcPage dstPage : U32)
  | eraseBlock (block : U32)
  | checkBlock (block : U32)
  | markBadblock (block : U32)
  | eraseAll

namespace SpinandPartition

open Logged

variable (bus : SpinandBus) {flash : SpinandFlash} (dev : SpinandPartition flash)

def call : MtdOp → Spinand Int
  | .readPage page dataLen spareLen => do
    let (result, _) ← dev.readPage bus page dataLen spareLen
    return result
  | .writePage page data spare => dev.writePage bus page data spare
  | .movePage srcPage dstPage => dev.movePage bus srcPage dstPage
  | .eraseBlock block => dev.eraseBlock bus block
  | .checkBlock block => dev.checkBlock bus block
  | .markBadblock block => dev.markBadblock bus block
  | .eraseAll => dev.neraseAll bus

/-- The operations in order, whatever each returns; a failed assertion ends the run. -/
def run (ops : List MtdOp) : Spinand Unit :=
  each (fun op => do
    let _ ← dev.call bus op
    return ()) ops

/-- What the check on the upper end lets through is not below the partition. -/
def StartsInside : MtdOp → Prop
  | .readPage page _ _ | .writePage page _ _ =>
    dev.pageBeyond page = false → dev.blockStart.toNat ≤ page.toNat / 64
  | .movePage srcPage dstPage => dev.pageBeyond srcPage = false → dev.pageBeyond dstPage = false →
    dev.blockStart.toNat ≤ srcPage.toNat / 64 ∧ dev.blockStart.toNat ≤ dstPage.toNat / 64
  | .eraseBlock block | .checkBlock block | .markBadblock block =>
    dev.blockBeyond block = false → dev.blockStart.toNat ≤ block.toNat
  | .eraseAll => dev.blockTotal = 0 ∨ dev.blockStart = 0

variable {dev}

theorem upTo_of_page {page : U32} (h : dev.pageBeyond page = false) :
    page.toNat / 64 ≤ dev.blockEnd.toNat := by
  have none := @pageBeyond_iff _ dev page
  rw [h] at none
  simpa using none

theorem upTo_of_block {block : U32} (h : dev.blockBeyond block = false) :
    block.toNat ≤ dev.blockEnd.toNat := by
  have none := @blockBeyond_iff _ dev block
  rw [h] at none
  simpa using none

theorem firstPage {block : U32} (upTo : block.toNat ≤ dev.blockEnd.toNat) :
    (block * dev.pagesPerBlock).toNat = block.toNat * 64 ∧
      (block * dev.pagesPerBlock + 1).toNat = block.toNat * 64 + 1 := by
  obtain ⟨perBlock, -, -⟩ := flash.geometry
  have last := dev.blockEnd_lt
  have one : (1 : U32).toNat = 1 := rfl
  simp only [pagesPerBlock, perBlock, BitVec.toNat_add, BitVec.toNat_mul, BitVec.toNat_ofNat, one,
    Nat.reducePow, Nat.reduceMod]
  omega

theorem harmless_holds (c : FlashCmd) (h : c.pageAddr = none) : dev.Holds c := by
  intro page same
  rw [h] at same
  cases same

theorem holds_page {page : U32} (upTo : page.toNat / 64 ≤ dev.blockEnd.toNat)
    (start : dev.blockStart.toNat ≤ page.toNat / 64) :
    dev.Holds (.pageRead (addrByte2 page) (addrByte1 page) (addrByte0 page)) ∧
      dev.Holds (.programExecute (addrByte2 page) (addrByte1 page) (addrByte0 page)) ∧
      dev.Holds (.blockErase (addrByte2 page) (addrByte1 page) (addrByte0 page)) :=
  ⟨(holds_iff rfl upTo).mpr start, (holds_iff rfl upTo).mpr start, (holds_iff rfl upTo).mpr start⟩

theorem issues_isbad_inside {block : U32} (upTo : block.toNat ≤ dev.blockEnd.toNat)
    (start : dev.blockStart.toNat ≤ block.toNat) :
    Issues dev.Holds (spinandBlockIsbad bus flash (block * dev.pagesPerBlock)) := by
  obtain ⟨first, second⟩ := firstPage upTo
  apply issues_blockIsbad bus harmless_holds
  · exact (holds_page (by omega) (by omega)).1
  · intro _
    exact (holds_page (by omega) (by omega)).1

theorem issues_eraseBlock {block : U32}
    (start : dev.blockBeyond block = false → dev.blockStart.toNat ≤ block.toNat) :
    Issues dev.Holds (dev.eraseBlock bus block) := by
  unfold eraseBlock
  split_ifs with beyond
  · exact .pure _
  · have free : dev.blockBeyond block = false := by simpa using beyond
    have upTo := upTo_of_block free
    have inside := start free
    have first := (firstPage upTo).1
    refine .bind (issues_isbad_inside bus upTo inside) fun bad => ?_
    split_ifs
    · exact .pure _
    · exact issues_blockErase bus harmless_holds (holds_page (by omega) (by omega)).2.2

theorem issues_readPart (addrH addrL : BitVec 8) (count : Nat) :
    Issues dev.Holds (readPart bus flash addrH addrL count) := by
  unfold readPart
  split_ifs
  · exact .pure _
  · exact .issue (harmless_holds _ rfl) _

theorem issues_readPage {page : U32} (dataLen spareLen : Nat)
    (start : dev.pageBeyond page = false → dev.blockStart.toNat ≤ page.toNat / 64) :
    Issues dev.Holds (dev.readPage bus page dataLen spareLen) := by
  unfold readPage
  split_ifs with beyond
  · exact .pure _
  · have free : dev.pageBeyond page = false := by simpa using beyond
    have inside := holds_page (upTo_of_page free) (start free)
    refine .bind (issues_readDataload bus harmless_holds inside.1) fun r => ?_
    split_ifs
    · exact .pure _
    · refine .bind (issues_readPart bus _ _ _) fun r => ?_
      dsimp only
      split_ifs
      · exact .pure _
      · exact .bind (issues_readPart bus _ _ _) fun _ => .pure _

theorem issues_writePage {page : U32} (data spare : List (BitVec 8))
    (start : dev.pageBeyond page = false → dev.blockStart.toNat ≤ page.toNat / 64) :
    Issues dev.Holds (dev.writePage bus page data spare) := by
  have select : Issues dev.Holds (selectDie bus flash) := by
    unfold selectDie
    split_ifs
    · exact .bind (issues_transfer bus (harmless_holds _ rfl)) fun _ => .pure _
    · exact .pure _
  have load : Issues dev.Holds (loadPage bus flash data spare) := by
    unfold loadPage
    split_ifs
    · exact issues_programDataload bus harmless_holds _ _ _ _
    · exact issues_programDataload bus harmless_holds _ _ _ _
  unfold writePage
  split_ifs with beyond
  · exact .pure _
  · have free : dev.pageBeyond page = false := by simpa using beyond
    have inside := holds_page (upTo_of_page free) (start free)
    refine .bind select fun r => ?_
    split_ifs
    · exact .pure _
    · refine .bind load fun r => ?_
      split_ifs
      · exact .pure _
      · exact issues_programExecute bus harmless_holds inside.2.1

theorem issues_movePage {srcPage dstPage : U32}
    (start : dev.StartsInside (.movePage srcPage dstPage)) :
    Issues dev.Holds (dev.movePage bus srcPage dstPage) := by
  unfold movePage
  split_ifs with beyond
  · exact .pure _
  · simp only [Bool.or_eq_true, not_or, Bool.not_eq_true] at beyond
    obtain ⟨srcInside, dstInside⟩ := start beyond.1 beyond.2
    have src := holds_page (upTo_of_page beyond.1) srcInside
    have dst := holds_page (upTo_of_page beyond.2) dstInside
    refine .bind (issues_readDataload bus harmless_holds src.1) fun r => ?_
    split_ifs
    · exact .pure _
    · refine .bind (issues_transfer bus (harmless_holds _ rfl)) fun r => ?_
      dsimp only
      split_ifs
      · exact .pure _
      · exact issues_programExecute bus harmless_holds dst.2.1

theorem issues_call {op : MtdOp} (start : dev.StartsInside op) : Issues dev.Holds (dev.call bus op) := by
  cases op with
  | readPage page dataLen spareLen =>
    exact .bind (issues_readPage bus dataLen spareLen start) fun _ => .pure _
  | writePage page data spare => exact issues_writePage bus data spare start
  | movePage srcPage dstPage => exact issues_movePage bus start
  | eraseBlock block => exact issues_eraseBlock bus start
  | checkBlock block =>
    change Issues dev.Holds (dev.checkBlock bus block)
    unfold checkBlock
    split_ifs with beyond
    · exact .pure _
    · have free : dev.blockBeyond block = false := by simpa using beyond
      exact .bind (issues_isbad_inside bus (upTo_of_block free) (start free)) fun _ => .pure _
  | markBadblock block =>
    change Issues dev.Holds (dev.markBadblock bus block)
    unfold markBadblock
    split_ifs with beyond
    · exact .pure _
    · have free : dev.blockBeyond block = false := by simpa using beyond
      have upTo := upTo_of_block free
      have inside := start free
      have first := (firstPage upTo).1
      have page := @holds_page _ dev (block * dev.pagesPerBlock) (by omega) (by omega)
      refine .bind (issues_isbad_inside bus upTo inside) fun bad => ?_
      split_ifs
      · exact .pure _
      · exact issues_blockMarkbad bus harmless_holds page.2.2 page.2.1
  | eraseAll =>
    refine .bind (.each fun index below => ?_) fun _ => .pure _
    refine .bind (issues_eraseBlock bus fun _ => ?_) fun _ => .pure _
    rcases start with empty | atStart
    · rw [empty] at below
      simp at below
    · rw [atStart]
      exact Nat.zero_le _

def healthyBus : SpinandBus := ⟨fun _ => true, fun _ => 0, fun _ => [], fun _ => 1⟩

theorem healthy_transfer (c : FlashCmd) (log : List FlashCmd) :
    transfer healthyBus c log = (.ok (rtEok, 0), log ++ [c]) := rfl

theorem healthy_isbusy (log : List FlashCmd) :
    spinandIsbusy healthyBus log = (.ok false, log ++ [.pollStatus]) := by
  change isbusyLoop healthyBus 1 log = _
  rw [isbusyLoop, bind_ok (healthy_transfer _ _)]
  rfl

theorem healthy_status (sel : Nat) (log : List FlashCmd) :
    spinandStatusRegisterRead healthyBus sel log = (.ok 0, log ++ [.readStatus sel]) := rfl

theorem healthy_readDataload (a2 a1 a0 : BitVec 8) (log : List FlashCmd) :
    spinandReadDataload healthyBus a2 a1 a0 log =
      (.ok rtEok, log ++ [.pageRead a2 a1 a0, .pollStatus, .readStatus 3]) := by
  rw [spinandReadDataload, bind_ok (healthy_transfer _ _)]
  simp only [ne_eq, not_true_eq_false, if_false]
  rw [bind_ok (healthy_isbusy _)]
  simp only [Bool.false_eq_true, if_false]
  rw [bind_ok (healthy_status _ _)]
  simp [rtEok]

theorem healthy_programExecute (a2 a1 a0 : BitVec 8) (log : List FlashCmd) :
    spinandProgramExecute healthyBus a2 a1 a0 log =
      (.ok rtEok, log ++ [.programExecute a2 a1 a0, .pollStatus, .readStatus 3]) := by
  rw [spinandProgramExecute, bind_ok (healthy_transfer _ _)]
  simp only [ne_eq, not_true_eq_false, if_false]
  rw [bind_ok (healthy_isbusy _)]
  simp only [Bool.false_eq_true, if_false]
  rw [bind_ok (healthy_status _ _)]
  simp [rtEok]

theorem healthy_programDataload (addrH addrL : BitVec 8) (data spare : List (BitVec 8))
    (log : List FlashCmd) : spinandProgramDataload healthyBus addrH addrL data spare log =
      (.ok rtEok, log ++ [.writeEnable, .programLoad addrH addrL data spare]) := by
  rw [spinandProgramDataload, bind_ok (healthy_transfer _ _)]
  simp only [ne_eq, not_true_eq_false, if_false]
  rw [bind_ok (healthy_transfer _ _)]
  simp

theorem healthy_blockIsbad (flash : SpinandFlash) (page : U32) (log : List FlashCmd) :
    spinandBlockIsbad healthyBus flash page log =
      (.ok true, log ++ [.pageRead (addrByte2 page) (addrByte1 page) (addrByte0 page), .pollStatus,
        .readStatus 3, .normalRead (addrByte1 flash.spareColumn) (addrByte0 flash.spareColumn)]) := by
  have marked : spinandPageIsbad healthyBus flash page log =
      (.ok true, log ++ [.pageRead (addrByte2 page) (addrByte1 page) (addrByte0 page), .pollStatus,
        .readStatus 3, .normalRead (addrByte1 flash.spareColumn) (addrByte0 flash.spareColumn)]) := by
    rw [spinandPageIsbad, bind_ok (healthy_readDataload _ _ _ _)]
    simp only [ne_eq, not_true_eq_false, if_false]
    rw [spinandNormalRead, bind_ok (healthy_transfer _ _)]
    simp [rtEok]
  rw [spinandBlockIsbad, bind_ok marked]
  rfl

/-- On a healthy bus an operation completes, and if it does not start inside it names a page of
no block of the partition. -/
def Betrays (dev : SpinandPartition flash) {α : Type} (m : Spinand α) (inside : Prop) : Prop :=
  ∀ log, ∃ r new, m log = (.ok r, log ++ new) ∧ (¬inside → ∃ c ∈ new, ¬dev.Holds c)

theorem Betrays.completes {α : Type} {m : Spinand α} {inside : Prop} (h : dev.Betrays m inside) :
    Completes m := by
  intro log
  obtain ⟨r, new, result, -⟩ := h log
  exact ⟨r, new, result⟩

theorem Betrays.shows {α : Type} {m : Spinand α} {inside : Prop} (h : dev.Betrays m inside)
    (outside : ¬inside) : Shows (fun c => ¬dev.Holds c) m := by
  intro log
  obtain ⟨r, new, result, shown⟩ := h log
  exact ⟨r, new, result, shown outside⟩

theorem betrays_rejected {α : Type} {inside : Prop} (h : inside) (r : α) :
    dev.Betrays (pure r) inside := by
  intro log
  exact ⟨r, [], by simp, fun outside => absurd h outside⟩

theorem betrays_isbad {m : Bool → Spinand Int} {block : U32} {r : Int}
    (free : dev.blockBeyond block = false) (result : m true = pure r) :
    dev.Betrays (spinandBlockIsbad healthyBus flash (block * dev.pagesPerBlock) >>= m)
      (dev.blockBeyond block = false → dev.blockStart.toNat ≤ block.toNat) := by
  intro log
  have upTo := upTo_of_block free
  have first := (firstPage upTo).1
  rw [bind_ok (healthy_blockIsbad _ _ _), result]
  refine ⟨r, _, rfl, ?_⟩
  intro outside
  refine ⟨_, List.mem_cons_self, ?_⟩
  rw [holds_iff rfl (by omega)]
  intro inside
  exact outside fun _ => by omega

theorem betrays_eraseBlock (block : U32) : dev.Betrays (dev.eraseBlock healthyBus block)
    (dev.blockBeyond block = false → dev.blockStart.toNat ≤ block.toNat) := by
  unfold eraseBlock
  split_ifs with beyond
  · exact betrays_rejected (fun free => absurd beyond (by simp [free])) _
  · exact betrays_isbad (by simpa using beyond) rfl

theorem healthy_readPart (addrH addrL : BitVec 8) (count : Nat) (log : List FlashCmd) :
    ∃ data new, readPart healthyBus flash addrH addrL count log = (.ok (rtEok, data), log ++ new) := by
  unfold readPart
  split_ifs
  · exact ⟨[], [], by simp⟩
  · exact ⟨_, _, rfl⟩

theorem betrays_readPage (page : U32) (dataLen spareLen : Nat) :
    dev.Betrays (dev.readPage healthyBus page dataLen spareLen)
      (dev.StartsInside (.readPage page dataLen spareLen)) := by
  unfold readPage
  split_ifs with beyond
  · exact betrays_rejected (fun free => absurd beyond (by simp [free])) _
  · intro log
    have free : dev.pageBeyond page = false := by simpa using beyond
    rw [bind_ok (healthy_readDataload _ _ _ _)]
    simp only [ne_eq, not_true_eq_false, if_false]
    generalize load : [FlashCmd.pageRead (addrByte2 page) (addrByte1 page) (addrByte0 page), .pollStatus,
      .readStatus 3] = loaded
    obtain ⟨data, new, first⟩ := @healthy_readPart flash 0 0 dataLen (log ++ loaded)
    obtain ⟨spare, more, second⟩ := @healthy_readPart flash (addrByte1 flash.spareColumn)
      (addrByte0 flash.spareColumn) spareLen (log ++ loaded ++ new)
    rw [bind_ok first]
    simp only [not_true_eq_false, if_false]
    rw [bind_ok second]
    refine ⟨_, loaded ++ (new ++ more), by simp only [List.append_assoc]; rfl, ?_⟩
    intro outside
    refine ⟨.pageRead (addrByte2 page) (addrByte1 page) (addrByte0 page), by simp [← load], ?_⟩
    rw [holds_iff rfl (upTo_of_page free)]
    exact fun inside => outside fun _ => inside

theorem healthy_selectDie (log : List FlashCmd) :
    ∃ new, selectDie healthyBus flash log = (.ok rtEok, log ++ new) := by
  unfold selectDie
  split_ifs
  · exact ⟨[.dieSelect 0], rfl⟩
  · exact ⟨[], by simp⟩

theorem healthy_loadPage (data spare : List (BitVec 8)) (log : List FlashCmd) :
    ∃ new, loadPage healthyBus flash data spare log = (.ok rtEok, log ++ new) := by
  unfold loadPage
  split_ifs
  · exact ⟨_, healthy_programDataload _ _ _ _ _⟩
  · exact ⟨_, healthy_programDataload _ _ _ _ _⟩

theorem betrays_writePage (page : U32) (data spare : List (BitVec 8)) :
    dev.Betrays (dev.writePage healthyBus page data spare)
      (dev.StartsInside (.writePage page data spare)) := by
  unfold writePage
  split_ifs with beyond
  · exact betrays_rejected (fun free => absurd beyond (by simp [free])) _
  · intro log
    have free : dev.pageBeyond page = false := by simpa using beyond
    obtain ⟨new, first⟩ := @healthy_selectDie flash log
    obtain ⟨more, second⟩ := @healthy_loadPage flash data spare (log ++ new)
    rw [bind_ok first]
    simp only [ne_eq, not_true_eq_false, if_false]
    rw [bind_ok second]
    simp only [not_true_eq_false, if_false]
    rw [healthy_programExecute]
    refine ⟨rtEok, new ++ (more ++ [.programExecute (addrByte2 page) (addrByte1 page) (addrByte0 page),
      .pollStatus, .readStatus 3]), by simp only [List.append_assoc], ?_⟩
    intro outside
    refine ⟨.programExecute (addrByte2 page) (addrByte1 page) (addrByte0 page), by simp, ?_⟩
    rw [holds_iff rfl (upTo_of_page free)]
    exact fun inside => outside fun _ => inside

theorem betrays_movePage (srcPage dstPage : U32) :
    dev.Betrays (dev.movePage healthyBus srcPage dstPage)
      (dev.StartsInside (.movePage srcPage dstPage)) := by
  unfold movePage
  split_ifs with beyond
  · refine betrays_rejected ?_ _
    intro srcFree dstFree
    simp [srcFree, dstFree] at beyond
  · intro log
    simp only [Bool.or_eq_true, not_or, Bool.not_eq_true] at beyond
    obtain ⟨srcFree, dstFree⟩ := beyond
    rw [bind_ok (healthy_readDataload _ _ _ _)]
    simp only [ne_eq, not_true_eq_false, if_false]
    rw [bind_ok (healthy_transfer _ _)]
    simp only [not_true_eq_false, if_false]
    rw [healthy_programExecute]
    refine ⟨rtEok, [.pageRead (addrByte2 srcPage) (addrByte1 srcPage) (addrByte0 srcPage), .pollStatus,
      .readStatus 3] ++ ([.writeEnable] ++ [.programExecute (addrByte2 dstPage) (addrByte1 dstPage)
        (addrByte0 dstPage), .pollStatus, .readStatus 3]), by simp only [List.append_assoc], ?_⟩
    intro outside
    by_cases srcInside : dev.blockStart.toNat ≤ srcPage.toNat / 64
    · refine ⟨.programExecute (addrByte2 dstPage) (addrByte1 dstPage) (addrByte0 dstPage), by simp, ?_⟩
      rw [holds_iff rfl (upTo_of_page dstFree)]
      exact fun dstInside => outside fun _ _ => ⟨srcInside, dstInside⟩
    · refine ⟨.pageRead (addrByte2 srcPage) (addrByte1 srcPage) (addrByte0 srcPage), by simp, ?_⟩
      rwa [holds_iff rfl (upTo_of_page srcFree)]

theorem completes_eraseEach (index : Nat) : Completes (do
    let _ ← dev.eraseBlock healthyBus (BitVec.ofNat 32 index)
    return ()) :=
  .bind (betrays_eraseBlock _).completes fun _ => .pure _

theorem betrays_eraseAll : dev.Betrays (dev.neraseAll healthyBus) (dev.StartsInside .eraseAll) := by
  intro log
  by_cases inside : dev.StartsInside .eraseAll
  · have completes : Completes (dev.neraseAll healthyBus) :=
      .bind (.each completes_eraseEach _) fun _ => .pure _
    obtain ⟨r, new, h⟩ := completes log
    exact ⟨r, new, h, fun outside => absurd inside outside⟩
  · simp only [StartsInside, not_or] at inside
    obtain ⟨some, later⟩ := inside
    have first : 0 ∈ List.range dev.blockTotal.toNat := by
      rw [List.mem_range]
      exact Nat.pos_of_ne_zero fun none => some (BitVec.eq_of_toNat_eq none)
    have foreign : Shows (fun c => ¬dev.Holds c) (do
        let _ ← dev.eraseBlock healthyBus (BitVec.ofNat 32 0)
        return ()) := by
      refine .bind ((betrays_eraseBlock _).shows ?_) fun _ => .pure _
      intro inside
      have start := inside (by simp [blockBeyond, BitVec.lt_def])
      exact later (BitVec.eq_of_toNat_eq (Nat.le_zero.mp start))
    have shows : Shows (fun c => ¬dev.Holds c) (dev.neraseAll healthyBus) :=
      .bind (.each completes_eraseEach first foreign) fun _ => .pure _
    obtain ⟨r, new, h, shown⟩ := shows log
    exact ⟨r, new, h, fun _ => shown⟩

theorem betrays_call (op : MtdOp) : dev.Betrays (dev.call healthyBus op) (dev.StartsInside op) := by
  cases op with
  | readPage page dataLen spareLen =>
    intro log
    obtain ⟨r, new, h, shown⟩ := @betrays_readPage _ dev page dataLen spareLen log
    refine ⟨r.1, new, ?_, shown⟩
    change (dev.readPage healthyBus page dataLen spareLen >>= fun r => pure r.1) log = _
    rw [bind_ok h]
    rfl
  | writePage page data spare => exact betrays_writePage page data spare
  | movePage srcPage dstPage => exact betrays_movePage srcPage dstPage
  | eraseBlock block => exact betrays_eraseBlock block
  | checkBlock block =>
    change dev.Betrays (dev.checkBlock healthyBus block) _
    unfold checkBlock
    split_ifs with beyond
    · exact betrays_rejected (fun free => absurd beyond (by simp [free])) _
    · exact betrays_isbad (by simpa using beyond) rfl
  | markBadblock block =>
    change dev.Betrays (dev.markBadblock healthyBus block) _
    unfold markBadblock
    split_ifs with beyond
    · exact betrays_rejected (fun free => absurd beyond (by simp [free])) _
    · exact betrays_isbad (by simpa using beyond) rfl
  | eraseAll => exact betrays_eraseAll

/-- However the bus and the flash behave, no command of the run names a page of another block. -/
def Isolated (dev : SpinandPartition flash) (ops : List MtdOp) : Prop :=
  ∀ bus, ∀ c ∈ (dev.run bus ops []).2, dev.Holds c

theorem not_isolated_of_outside {ops : List MtdOp} {op : MtdOp} (called : op ∈ ops)
    (outside : ¬dev.StartsInside op) : ¬dev.Isolated ops := by
  intro isolated
  have every : ∀ op, Completes (do
      let _ ← dev.call healthyBus op
      return ()) := fun op => .bind (betrays_call op).completes fun _ => .pure _
  have foreign : Shows (fun c => ¬dev.Holds c) (do
      let _ ← dev.call healthyBus op
      return ()) := .bind ((betrays_call op).shows outside) fun _ => .pure _
  obtain ⟨_, new, h, c, logged, notOwn⟩ := Shows.each every called foreign []
  have final : (dev.run healthyBus ops []).2 = new := by
    rw [run, h, List.nil_append]
  exact notOwn (isolated healthyBus c (final ▸ logged))

/-- A partition is isolated exactly in the runs all of whose operations start inside it. -/
theorem isolated_iff (dev : SpinandPartition flash) (ops : List MtdOp) :
    dev.Isolated ops ↔ ∀ op ∈ ops, dev.StartsInside op := by
  constructor
  · intro isolated op called
    by_contra outside
    exact not_isolated_of_outside called outside isolated
  · intro start bus
    have allowed : Issues dev.Holds (dev.run bus ops) :=
      .each fun op called => .bind (issues_call bus (start op called)) fun _ => .pure _
    obtain ⟨new, grown, own⟩ := allowed []
    rw [grown]
    exact own

/-- The board's `nand1`, behind the boot loader in blocks 0 to 63. -/
def nand1 : SpinandPartition ⟨gSpinandflashList[1], by decide⟩ where
  blockStart := 64
  blockEnd := 2047
  blockTotal := 1984
  ordered := by decide
  onFlash := by decide

theorem issues_eraseEach (bus : SpinandBus) (index : Nat) : Issues (fun _ => True) (do
    let _ ← dev.eraseBlock bus (BitVec.ofNat 32 index)
    return ()) := by
  refine .bind ?_ fun _ => .pure _
  unfold eraseBlock
  split_ifs
  · exact .pure _
  · refine .bind (issues_blockIsbad bus (fun _ _ => trivial) trivial fun _ => trivial) fun bad => ?_
    split_ifs
    · exact .pure _
    · exact issues_blockErase bus (fun _ _ => trivial) trivial

/-- A bus on which every byte reads as on an erased flash once the flash is ready. -/
def erasedBus : SpinandBus where
  ok _ := true
  byte log :=
    match log.getLast? with
    | some (.normalRead ..) => 0xFF
    | _ => 0
  data _ := []
  polls _ := 1

/-- `nand1` asks the flash to erase page 0, the first one of the boot loader. -/
theorem nand1_erases_boot_loader : ¬nand1.Isolated [.eraseAll] ∧
    .blockErase 0 0 0 ∈ (nand1.run erasedBus [.eraseAll] []).2 := by
  have first : .blockErase 0 0 0 ∈ (nand1.eraseBlock erasedBus (BitVec.ofNat 32 0) []).2 := by
    have run : nand1.eraseBlock erasedBus (BitVec.ofNat 32 0) [] = (.ok 0, [.pageRead 0 0 0,
      .pollStatus, .readStatus 3, .normalRead 8 0, .pageRead 0 0 1, .pollStatus, .readStatus 3,
      .normalRead 8 0, .writeEnable, .blockErase 0 0 0, .pollStatus, .readStatus 3]) := rfl
    rw [run]
    simp
  have blocks : List.range nand1.blockTotal.toNat = 0 :: (List.range 1983).map Nat.succ :=
    List.range_succ_eq_map
  have erased : .blockErase 0 0 0 ∈ (nand1.run erasedBus [.eraseAll] []).2 := by
    simp only [run, call, neraseAll, blocks, each, bind_assoc, pure_bind]
    refine Issues.mem_bind (fun _ => .bind (.each fun index _ => ?_) fun _ => .pure _) first
    exact issues_eraseEach erasedBus index
  refine ⟨?_, erased⟩
  intro isolated
  have own := isolated erasedBus _ erased
  exact absurd (own 0 rfl) (by decide)

end SpinandPartition

end NuMakerMA35
