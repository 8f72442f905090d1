import NuMakerMA35.SpinandStatus

namespace NuMakerMA35

open Logged SpinandPartition

/-- The flash behind the bus, by the documentation the source quotes: the array and the page cache by
page and column, the write-enable latch and the two fail bits. -/
structure ChipState where
  cells : Nat → Nat → BitVec 8
  cache : Nat → BitVec 8
  writeEnabled : Bool
  programFail : Bool
  eraseFail : Bool

def ChipState.failBits (s : ChipState) : BitVec 8 :=
  (if s.programFail then 0x08 else 0) ||| (if s.eraseFail then 0x04 else 0)

theorem ChipState.failBits_bits (s : ChipState) :
    s.failBits &&& 0x0C = s.failBits ∧ (s.failBits &&& 0x30) >>> 4 = 0 := by
  have all : ∀ p e : Bool,
      ((if p then (0x08 : BitVec 8) else 0) ||| (if e then 0x04 else 0)) &&& 0x0C =
        (if p then 0x08 else 0) ||| (if e then 0x04 else 0) ∧
      (((if p then (0x08 : BitVec 8) else 0) ||| (if e then 0x04 else 0)) &&& 0x30) >>> 4 = 0 := by
    decide
  exact all s.programFail s.eraseFail

/-- A flash: what it holds at first, which operations fail and what a failed one leaves in the pages
it was to change. An operation is named by the commands up to it. -/
structure SpinandChip where
  start : ChipState
  fails : List FlashCmd → Bool
  left : List FlashCmd → Nat → Nat → BitVec 8

def pageOf (a2 a1 a0 : BitVec 8) : Nat := a2.toNat * 65536 + a1.toNat * 256 + a0.toNat

def columnOf (addrH addrL : BitVec 8) : Nat := addrH.toNat * 256 + addrL.toNat

def loadedCache (column : Nat) (bytes : List (BitVec 8)) : Nat → BitVec 8 := fun col =>
  if col < column then 0xFF else bytes.getD (col - column) 0xFF

namespace SpinandChip

variable (chip : SpinandChip)

def programmed (s : ChipState) (log : List FlashCmd) (page : Nat) : ChipState :=
  { s with
    cells := Function.update s.cells page
      (if chip.fails log then chip.left log page else fun col => s.cells page col &&& s.cache col)
    writeEnabled := false
    programFail := chip.fails log
    eraseFail := false }

def erased (pagePerBlock : Nat) (s : ChipState) (log : List FlashCmd) (page : Nat) : ChipState :=
  { s with
    cells := fun p =>
      if p / pagePerBlock = page / pagePerBlock then
        if chip.fails log then chip.left log p else fun _ => 0xFF
      else s.cells p
    writeEnabled := false
    programFail := false
    eraseFail := chip.fails log }

/-- One command, the last one of `log`; without the latch nothing is programmed or erased. -/
def step (pagePerBlock : Nat) (s : ChipState) (log : List FlashCmd) : FlashCmd → ChipState
  | .writeEnable => { s with writeEnabled := true }
  | .programLoad addrH addrL data spare =>
    { s with cache := loadedCache (columnOf addrH addrL) (data ++ spare) }
  | .programExecute a2 a1 a0 => if s.writeEnabled then chip.programmed s log (pageOf a2 a1 a0) else s
  | .pageRead a2 a1 a0 => { s with cache := s.cells (pageOf a2 a1 a0) }
  | .blockErase a2 a1 a0 =>
    if s.writeEnabled then chip.erased pagePerBlock s log (pageOf a2 a1 a0) else s
  | .dieSelect _ | .normalRead .. | .quadRead .. | .pollStatus | .readStatus _ => s

/-- The state after the commands of a log, the last one at the head of the list. -/
def afterReversed (pagePerBlock : Nat) : List FlashCmd → ChipState
  | [] => chip.start
  | c :: past =>
    chip.step pagePerBlock (afterReversed pagePerBlock past) (c :: past).reverse c

def after (pagePerBlock : Nat) (log : List FlashCmd) : ChipState :=
  chip.afterReversed pagePerBlock log.reverse

theorem after_append_one (pagePerBlock : Nat) (log : List FlashCmd) (c : FlashCmd) :
    chip.after pagePerBlock (log ++ [c]) =
      chip.step pagePerBlock (chip.after pagePerBlock log) (log ++ [c]) c := by
  simp [after, afterReversed]

end SpinandChip

/-- What the bus answers is what the flash has, where a transfer succeeds. -/
structure SpinandBus.Shows (bus : SpinandBus) (chip : SpinandChip) (pagePerBlock : Nat) : Prop where
  cache : ∀ log addrH addrL, bus.ok (log ++ [.normalRead addrH addrL]) = true →
    bus.byte (log ++ [.normalRead addrH addrL]) =
      (chip.after pagePerBlock log).cache (columnOf addrH addrL)
  status : ∀ log, bus.ok (log ++ [.readStatus 3]) = true →
    bus.byte (log ++ [.readStatus 3]) &&& 0x0C = (chip.after pagePerBlock log).failBits

/-- Every transfer succeeds, the flash is ready in time and finds no error it cannot correct. -/
structure SpinandBus.Delivers (bus : SpinandBus) : Prop where
  ok : ∀ log, bus.ok log = true
  polls : ∀ log, 0 < bus.polls log
  ready : ∀ log, bus.byte (log ++ [.pollStatus]) &&& 0x1 = 0
  ecc : ∀ log, (bus.byte (log ++ [.readStatus 3]) &&& 0x30) >>> 4 = 0 ∨
    (bus.byte (log ++ [.readStatus 3]) &&& 0x30) >>> 4 = 1

def SpinandChip.bus (chip : SpinandChip) (pagePerBlock : Nat) : SpinandBus where
  ok := fun _ => true
  byte := fun log =>
    match log.reverse with
    | .normalRead addrH addrL :: past =>
      (chip.afterReversed pagePerBlock past).cache (columnOf addrH addrL)
    | .readStatus _ :: past => (chip.afterReversed pagePerBlock past).failBits
    | _ => 0
  data := fun _ => []
  polls := fun _ => 1

theorem SpinandChip.bus_shows (chip : SpinandChip) (pagePerBlock : Nat) :
    (chip.bus pagePerBlock).Shows chip pagePerBlock where
  cache := by
    intro log addrH addrL _
    simp [SpinandChip.bus, SpinandChip.after]
  status := by
    intro log _
    simp only [SpinandChip.bus, SpinandChip.after, List.reverse_append, List.reverse_cons,
      List.reverse_nil, List.nil_append, List.cons_append]
    exact (ChipState.failBits_bits _).1

theorem SpinandChip.bus_delivers (chip : SpinandChip) (pagePerBlock : Nat) :
    (chip.bus pagePerBlock).Delivers where
  ok := fun _ => rfl
  polls := fun _ => Nat.one_pos
  ready := by
    intro log
    simp [SpinandChip.bus]
  ecc := by
    intro log
    left
    simp only [SpinandChip.bus, List.reverse_append, List.reverse_cons, List.reverse_nil,
      List.nil_append, List.cons_append]
    exact (ChipState.failBits_bits _).2

/-- A computation that leaves the flash as it is, its cache included. -/
def Unmoved {α : Type} (chip : SpinandChip) (pagePerBlock : Nat) (m : Spinand α) : Prop :=
  ∀ log, chip.after pagePerBlock (m log).2 = chip.after pagePerBlock log

section Unmoved

variable {α β : Type} {chip : SpinandChip} {n : Nat} {m : Spinand α} {f : α → Spinand β}
  {bus : SpinandBus} {log : List FlashCmd}

theorem Unmoved.pure (a : α) : Unmoved chip n (pure a : Spinand α) := fun _ => rfl

theorem Unmoved.bind (first : Unmoved chip n m) (rest : ∀ a, Unmoved chip n (f a)) :
    Unmoved chip n (m >>= f) := by
  intro log
  cases run : m log with
  | mk result mid =>
    have same := first log
    rw [run] at same
    cases result with
    | error e =>
      rw [bind_error run]
      exact same
    | ok a =>
      rw [bind_ok run]
      exact (rest a mid).trans same

theorem after_polls (k : Nat) :
    chip.after n (log ++ List.replicate k .pollStatus) = chip.after n log := by
  induction k with
  | zero => simp
  | succ k ih =>
    rw [List.replicate_succ', ← List.append_assoc, chip.after_append_one]
    exact ih

theorem unmoved_isbusy : Unmoved chip n (spinandIsbusy bus) := by
  intro log
  obtain ⟨busy, k, run⟩ := @spinandIsbusy_run bus log
  rw [run]
  exact after_polls k

theorem spinandStatus_run : spinandStatusRegisterRead bus 3 log =
    (if bus.ok (log ++ [.readStatus 3]) then .ok (bus.byte (log ++ [.readStatus 3]))
      else .error .assertion, log ++ [.readStatus 3]) := by
  unfold spinandStatusRegisterRead
  rw [bind_ok (transfer_run _)]
  dsimp only
  split_ifs <;> first | rfl | contradiction

theorem unmoved_status : Unmoved chip n (spinandStatusRegisterRead bus 3) := by
  intro log
  rw [spinandStatus_run, chip.after_append_one]
  rfl

theorem after_first {c : FlashCmd} {f : Int × BitVec 8 → Spinand β}
    (rest : ∀ r, Unmoved chip n (f r)) :
    chip.after n ((transfer bus c >>= f) log).2 =
      chip.step n (chip.after n log) (log ++ [c]) c := by
  rw [bind_ok (transfer_run c), rest, chip.after_append_one]

theorem after_readDataload (a2 a1 a0 : BitVec 8) :
    chip.after n (spinandReadDataload bus a2 a1 a0 log).2 =
      { chip.after n log with cache := (chip.after n log).cells (pageOf a2 a1 a0) } := by
  refine after_first fun r => ?_
  dsimp only
  split
  · exact .pure _
  refine unmoved_isbusy.bind fun busy => ?_
  split
  · exact .pure _
  · exact unmoved_status.bind fun _ => .pure _

end Unmoved

section Mark

variable {chip : SpinandChip} {n : Nat} {bus : SpinandBus} {flash : SpinandFlash}
  {log : List FlashCmd}

/-- The bad-block marker of a page: the first byte behind the data. -/
def SpinandChip.marker (chip : SpinandChip) (flash : SpinandFlash) (log : List FlashCmd)
    (page : Nat) : BitVec 8 :=
  (chip.after flash.val.pagePerBlock log).cells page flash.val.pageSize

theorem spareColumn_bytes (flash : SpinandFlash) :
    columnOf (addrByte1 flash.spareColumn) (addrByte0 flash.spareColumn) = flash.val.pageSize := by
  obtain ⟨-, size, -⟩ := flash.geometry
  rw [SpinandFlash.spareColumn, size]
  decide

theorem pageIsbad_run {page : U32} (shows : bus.Shows chip flash.val.pagePerBlock)
    (small : page.toNat < 2 ^ 24) {bad : Bool} {mid : List FlashCmd}
    (run : spinandPageIsbad bus flash page log = (.ok bad, mid)) :
    bad = decide (chip.marker flash log page.toNat ≠ 0xFF) ∧
      (chip.after flash.val.pagePerBlock mid).cells =
        (chip.after flash.val.pagePerBlock log).cells := by
  have loaded := @after_readDataload chip flash.val.pagePerBlock bus log (addrByte2 page) (addrByte1 page) (addrByte0 page)
  rw [pageOf, addrBytes_toNat small] at loaded
  unfold spinandPageIsbad at run
  cases load : spinandReadDataload bus (addrByte2 page) (addrByte1 page) (addrByte0 page) log with
  | mk result mid' =>
    rw [load] at loaded
    cases result with
    | error e =>
      rw [bind_error load] at run
      cases run
    | ok result =>
      rw [bind_ok load] at run
      split at run
      · cases run
      · have read := @transfer_run bus mid'
          (.normalRead (addrByte1 flash.spareColumn) (addrByte0 flash.spareColumn))
        unfold spinandNormalRead at run
        rw [bind_ok read] at run
        by_cases ok : bus.ok (mid' ++ [.normalRead (addrByte1 flash.spareColumn)
            (addrByte0 flash.spareColumn)]) = true
        · simp only [ok, if_true, ne_eq, not_true_eq_false, if_false] at run
          cases run
          refine ⟨?_, ?_⟩
          · rw [shows.cache _ _ _ ok, loaded, spareColumn_bytes]
            rfl
          · rw [chip.after_append_one]
            change (chip.after _ mid').cells = _
            rw [loaded]
        · rw [if_neg ok] at run
          cases run

/-- What the code takes for a bad block: the second page is asked only for a page number that is a
multiple of the bytes of a block. -/
def SpinandChip.FoundBad (chip : SpinandChip) (flash : SpinandFlash) (log : List FlashCmd)
    (page : Nat) : Prop :=
  chip.marker flash log page ≠ 0xFF ∨
    page % (flash.val.pagePerBlock * flash.val.pageSize) = 0 ∧
      chip.marker flash log (page + 1) ≠ 0xFF

instance (chip : SpinandChip) (flash : SpinandFlash) (log : List FlashCmd) (page : Nat) :
    Decidable (chip.FoundBad flash log page) := inferInstanceAs (Decidable (_ ∨ _))

theorem page_multiple {page : U32} : page % BitVec.ofNat 32 (flash.val.pagePerBlock *
    flash.val.pageSize) = 0 ↔ page.toNat % (flash.val.pagePerBlock * flash.val.pageSize) = 0 := by
  obtain ⟨perBlock, size, -⟩ := flash.geometry
  rw [perBlock, size, ← BitVec.toNat_inj, BitVec.toNat_umod]
  rfl

theorem blockIsbad_run {page : U32} (shows : bus.Shows chip flash.val.pagePerBlock)
    (small : page.toNat + 1 < 2 ^ 24) {bad : Bool} {mid : List FlashCmd}
    (run : spinandBlockIsbad bus flash page log = (.ok bad, mid)) :
    bad = decide (chip.FoundBad flash log page.toNat) ∧
      (chip.after flash.val.pagePerBlock mid).cells =
        (chip.after flash.val.pagePerBlock log).cells := by
  have next : (page + 1).toNat = page.toNat + 1 := by
    rw [BitVec.toNat_add]
    exact Nat.mod_eq_of_lt (by change page.toNat + 1 < _; omega)
  unfold spinandBlockIsbad at run
  cases first : spinandPageIsbad bus flash page log with
  | mk result mid' =>
    cases result with
    | error e =>
      rw [bind_error first] at run
      cases run
    | ok marked =>
      obtain ⟨mark, same⟩ := pageIsbad_run shows (by omega) first
      rw [bind_ok first] at run
      by_cases bad1 : chip.marker flash log page.toNat ≠ 0xFF
      · rw [decide_eq_true bad1] at mark
        rw [if_pos mark] at run
        cases run
        exact ⟨(decide_eq_true (.inl bad1)).symm, same⟩
      · rw [decide_eq_false bad1] at mark
        rw [if_neg (by simp [mark])] at run
        by_cases multiple : page % BitVec.ofNat 32 (flash.val.pagePerBlock * flash.val.pageSize) = 0
        · rw [if_pos multiple] at run
          obtain ⟨mark', same'⟩ := pageIsbad_run shows (by omega) run
          rw [next] at mark'
          refine ⟨?_, same'.trans same⟩
          have again : chip.marker flash mid' (page.toNat + 1) =
              chip.marker flash log (page.toNat + 1) := by
            unfold SpinandChip.marker
            rw [same]
          rw [mark', again]
          refine decide_eq_decide.mpr ⟨fun bad2 => .inr ⟨page_multiple.mp multiple, bad2⟩, ?_⟩
          intro found
          exact (found.resolve_left bad1).2
        · rw [if_neg multiple] at run
          cases run
          refine ⟨(decide_eq_false ?_).symm, same⟩
          intro found
          exact multiple (page_multiple.mpr (found.resolve_left bad1).1)

theorem isbusy_delivers (delivers : bus.Delivers) :
    spinandIsbusy bus log = (.ok false, log ++ [.pollStatus]) := by
  unfold spinandIsbusy
  obtain ⟨k, some⟩ := Nat.exists_eq_add_of_lt (delivers.polls log)
  rw [some, Nat.zero_add, isbusyLoop, bind_ok (transfer_run _), delivers.ok, if_pos rfl]
  simp only [ne_eq, not_true_eq_false, if_false]
  rw [if_pos (delivers.ready log)]
  rfl

theorem pageIsbad_delivers (delivers : bus.Delivers) (page : U32) :
    ∃ bad mid, spinandPageIsbad bus flash page log = (.ok bad, mid) := by
  have load : spinandReadDataload bus (addrByte2 page) (addrByte1 page) (addrByte0 page) log =
      (.ok rtEok, log ++ [.pageRead (addrByte2 page) (addrByte1 page) (addrByte0 page)] ++
        [.pollStatus] ++ [.readStatus 3]) := by
    unfold spinandReadDataload
    rw [bind_ok (transfer_run _), delivers.ok, if_pos rfl]
    simp only [ne_eq, not_true_eq_false, if_false]
    rw [bind_ok (isbusy_delivers delivers)]
    simp only [Bool.false_eq_true, if_false]
    have status := @spinandStatus_run bus (log ++
      [.pageRead (addrByte2 page) (addrByte1 page) (addrByte0 page)] ++ [.pollStatus])
    rw [delivers.ok, if_pos rfl] at status
    rw [bind_ok status, if_neg]
    · rfl
    · rintro ⟨zero, one⟩
      rcases delivers.ecc (log ++ [.pageRead (addrByte2 page) (addrByte1 page)
        (addrByte0 page)] ++ [.pollStatus]) with fine | corrected
      · exact zero fine
      · exact one corrected
  unfold spinandPageIsbad spinandNormalRead
  rw [bind_ok load, if_neg (by simp), bind_ok (transfer_run _), delivers.ok, if_pos rfl]
  exact ⟨_, _, rfl⟩

theorem blockIsbad_delivers (delivers : bus.Delivers) (page : U32) :
    ∃ bad mid, spinandBlockIsbad bus flash page log = (.ok bad, mid) := by
  obtain ⟨bad, mid, first⟩ := @pageIsbad_delivers bus flash log delivers page
  unfold spinandBlockIsbad
  rw [bind_ok first]
  split_ifs
  · exact ⟨_, _, rfl⟩
  · exact pageIsbad_delivers delivers (page + 1)
  · exact ⟨_, _, rfl⟩

theorem blockPage {block : U32} (onFlash : block.toNat < flash.val.blockPerFlash) :
    (block * BitVec.ofNat 32 flash.val.pagePerBlock).toNat = block.toNat * 64 ∧
      block.toNat * 64 + 1 < 2 ^ 24 := by
  obtain ⟨perBlock, -, blocks⟩ := flash.geometry
  rw [perBlock, BitVec.toNat_mul, BitVec.toNat_ofNat]
  omega

theorem foundBad_block {block : Nat} : chip.FoundBad flash log (block * 64) ↔
    chip.marker flash log (block * 64) ≠ 0xFF ∨
      block % flash.val.pageSize = 0 ∧ chip.marker flash log (block * 64 + 1) ≠ 0xFF := by
  obtain ⟨perBlock, size, -⟩ := flash.geometry
  unfold SpinandChip.FoundBad
  rw [perBlock, size]
  have units : block * 64 % (64 * 2048) = 0 ↔ block % 2048 = 0 := by omega
  rw [units]

/-- The block is taken for bad exactly if the marker of its first or of its second page says so. -/
def IsbadRight (bus : SpinandBus) (chip : SpinandChip) (flash : SpinandFlash) (log : List FlashCmd)
    (block : U32) : Prop :=
  ∃ bad mid, spinandBlockIsbad bus flash (block * BitVec.ofNat 32 flash.val.pagePerBlock) log =
    (.ok bad, mid) ∧ (bad = true ↔
      chip.marker flash log (block.toNat * flash.val.pagePerBlock) ≠ 0xFF ∨
        chip.marker flash log (block.toNat * flash.val.pagePerBlock + 1) ≠ 0xFF)

theorem second_page_counts {first second looked : Prop} :
    ((first ∨ looked ∧ second) ↔ first ∨ second) ↔ looked ∨ first ∨ ¬second := by
  by_cases here : first
  · simp [here]
  · by_cases there : second
    · simp [here, there]
    · simp [here, there]

theorem isbad_right_iff (shows : bus.Shows chip flash.val.pagePerBlock) (delivers : bus.Delivers)
    (log : List FlashCmd) {block : U32} (onFlash : block.toNat < flash.val.blockPerFlash) :
    IsbadRight bus chip flash log block ↔
      block.toNat % flash.val.pageSize = 0 ∨
        chip.marker flash log (block.toNat * flash.val.pagePerBlock) ≠ 0xFF ∨
        chip.marker flash log (block.toNat * flash.val.pagePerBlock + 1) = 0xFF := by
  obtain ⟨first, small⟩ := blockPage onFlash
  obtain ⟨bad, mid, run⟩ := @blockIsbad_delivers bus flash log delivers
    (block * BitVec.ofNat 32 flash.val.pagePerBlock)
  obtain ⟨found, -⟩ := blockIsbad_run shows (by omega) run
  rw [first] at found
  unfold IsbadRight
  rw [flash.geometry.1] at *
  have value : (∃ b m, spinandBlockIsbad bus flash (block * BitVec.ofNat 32 64) log = (.ok b, m) ∧
      (b = true ↔ chip.marker flash log (block.toNat * 64) ≠ 0xFF ∨
        chip.marker flash log (block.toNat * 64 + 1) ≠ 0xFF)) ↔
      (chip.FoundBad flash log (block.toNat * 64) ↔
        chip.marker flash log (block.toNat * 64) ≠ 0xFF ∨
          chip.marker flash log (block.toNat * 64 + 1) ≠ 0xFF) := by
    rw [← decide_eq_true_iff (p := chip.FoundBad flash log (block.toNat * 64)), ← found]
    constructor
    · rintro ⟨b, m, run', right⟩
      rw [run] at run'
      cases run'
      exact right
    · exact fun right => ⟨bad, mid, run, right⟩
  rw [value, foundBad_block, second_page_counts, not_not]

/-- A flash of ones but for the marker of page 65, the second one of block 1. -/
def secondMarked : SpinandChip where
  start := ⟨fun page col => if page = 65 ∧ col = 2048 then 0 else 0xFF, fun _ => 0xFF, false, false,
    false⟩
  fails := fun _ => false
  left := fun _ _ _ => 0xFF

theorem isbad_right_block_one :
    (1 : U32).toNat < firstFlash.val.blockPerFlash ∧
      (IsbadRight (secondMarked.bus 64) secondMarked firstFlash [] 1 ↔
        (1 : U32).toNat % firstFlash.val.pageSize = 0 ∨
          secondMarked.marker firstFlash [] ((1 : U32).toNat * firstFlash.val.pagePerBlock) ≠ 0xFF ∨
          secondMarked.marker firstFlash [] ((1 : U32).toNat * firstFlash.val.pagePerBlock + 1) =
            0xFF) :=
  ⟨by decide, isbad_right_iff (secondMarked.bus_shows 64) (secondMarked.bus_delivers 64) []
    (by decide)⟩

/-- Block 1 with the marker of its second page cleared is taken for good. -/
theorem second_marker_overlooked :
    secondMarked.marker firstFlash [] 65 = 0 ∧
      (spinandBlockIsbad (secondMarked.bus 64) firstFlash 64 []).1 = .ok false ∧
      ¬IsbadRight (secondMarked.bus 64) secondMarked firstFlash [] 1 := by
  refine ⟨rfl, rfl, ?_⟩
  rintro ⟨bad, mid, run, right⟩
  cases run
  exact absurd (right.mpr (.inr (by decide))) (by decide)

end Mark

end NuMakerMA35
