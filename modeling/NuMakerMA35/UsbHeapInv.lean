import NuMakerMA35.UsbSupport
import Mathlib.Order.Interval.Finset.Nat

namespace NuMakerMA35

open Words

def usbBlockNum : Nat := usbMemoryPoolSize / usbMemBlockSize

structure UsbRegion where
  head : Nat
  count : Nat
  wanted : BitVec 32
  boundary : BitVec 32
  deriving DecidableEq, Repr

def UsbRegion.Covers (r : UsbRegion) (b : Nat) : Prop := r.head ≤ b ∧ b < r.head + r.count

instance (r : UsbRegion) (b : Nat) : Decidable (r.Covers b) := inferInstanceAs (Decidable (_ ∧ _))

def UsbPool.block (p : UsbPool) (b : Nat) : Nat := p.base + b * usbMemBlockSize

def usbDataOffset (boundary : BitVec 32) : Nat :=
  if usbBoundaryWord < boundary.toInt then usbMemBlockSize else usbMhdrSize

theorem usbMhdrSize_le_dataOffset (boundary : BitVec 32) : usbMhdrSize ≤ usbDataOffset boundary := by
  unfold usbDataOffset
  split_ifs <;> decide

def UsbRegion.ptr (p : UsbPool) (r : UsbRegion) : Nat := p.block r.head + usbDataOffset r.boundary

theorem UsbRegion.ptr_ne_zero (p : UsbPool) (r : UsbRegion) : r.ptr p ≠ 0 := by
  have offset := usbMhdrSize_le_dataOffset r.boundary
  simp only [UsbRegion.ptr, usbMhdrSize] at offset ⊢
  omega

def UsbRegion.stop (p : UsbPool) (r : UsbRegion) : Nat := p.block (r.head + r.count)

def Uncovered (live : List UsbRegion) (b : Nat) : Prop := ∀ r ∈ live, ¬r.Covers b

instance (live : List UsbRegion) (b : Nat) : Decidable (Uncovered live b) :=
  inferInstanceAs (Decidable (∀ r ∈ live, ¬r.Covers b))

def freeBlocks (live : List UsbRegion) : Finset Nat :=
  (Finset.range usbBlockNum).filter (Uncovered live)

/-- A block at which the rover may stand: the head of a region, a free block or the end. -/
def AtBoundary (live : List UsbRegion) (c : Nat) : Prop :=
  c ≤ usbBlockNum ∧ ∀ r ∈ live, r.head < c → r.head + r.count ≤ c

/-- A region in the pool whose header says what it is. -/
structure UsbRegion.Kept (p : UsbPool) (mem : Mem) (r : UsbRegion) : Prop where
  some : 0 < r.count
  inPool : r.head + r.count ≤ usbBlockNum
  flag : hdrFlag mem (p.block r.head) = 0x3
  bcnt : hdrBcnt mem (p.block r.head) = BitVec.ofNat 32 r.count
  magic : hdrMagic mem (p.block r.head) = usbMemAllocMagic
  dataIn : r.ptr p < p.limit
  large : (r.ptr p : Int) + r.wanted.toInt ≤ r.stop p
  wantedNonneg : 0 ≤ r.wanted.toInt
  onBoundary : usbBoundaryWord < r.boundary.toInt → r.ptr p % r.boundary.toNat = 0

def UsbRegion.Apart (r q : UsbRegion) : Prop :=
  r.head + r.count ≤ q.head ∨ q.head + q.count ≤ r.head

structure UsbInv (p : UsbPool) (h : UsbHeap) (live : List UsbRegion) : Prop where
  kept : ∀ r ∈ live, r.Kept p h.mem
  apart : live.Pairwise UsbRegion.Apart
  unflagged : ∀ b, b < usbBlockNum → Uncovered live b → hdrFlag h.mem (p.block b) = 0
  rover : ∃ c, h.pCurrent = p.block c ∧ AtBoundary live c
  free : h.freeMemorySize.toNat = usbMemBlockSize * (freeBlocks live).card
  total : h.freeMemorySize.toNat + h.allocatedMemorySize.toNat = usbMemoryPoolSize

theorem UsbPool.ptrAdd_block (p : UsbPool) {b n : Nat} (h : b + n ≤ usbBlockNum) :
    ptrAdd (p.block b) (n * usbMemBlockSize) = p.block (b + n) := by
  have fits := p.fits
  simp only [ptrAdd, UsbPool.block, usbMemBlockSize, usbMemoryPoolSize, usbBlockNum] at *
  omega

theorem UsbPool.block_limit (p : UsbPool) : p.block usbBlockNum = p.limit := by
  simp [UsbPool.block, UsbPool.limit, usbBlockNum, usbMemBlockSize, usbMemoryPoolSize]

theorem UsbPool.block_eq_limit_iff (p : UsbPool) {b : Nat} : p.block b = p.limit ↔ b = usbBlockNum := by
  simp only [UsbPool.block, UsbPool.limit, usbBlockNum, usbMemBlockSize, usbMemoryPoolSize]
  omega

theorem UsbPool.limit_le_block_iff (p : UsbPool) {b : Nat} : p.limit ≤ p.block b ↔ usbBlockNum ≤ b := by
  simp only [UsbPool.block, UsbPool.limit, usbBlockNum, usbMemBlockSize, usbMemoryPoolSize]
  omega

instance : Std.Symm UsbRegion.Apart := ⟨fun _ _ h => h.symm⟩

theorem apart_of_ne {live : List UsbRegion} (apart : live.Pairwise UsbRegion.Apart) {r q : UsbRegion}
    (hr : r ∈ live) (hq : q ∈ live) (other : r ≠ q) : r.Apart q :=
  apart.forall hr hq other

theorem AtBoundary.stop {p : UsbPool} {h : UsbHeap} {live : List UsbRegion} (inv : UsbInv p h live)
    {r : UsbRegion} (hr : r ∈ live) : AtBoundary live (r.head + r.count) := by
  have some := (inv.kept r hr).some
  refine ⟨(inv.kept r hr).inPool, ?_⟩
  intro q hq before
  by_cases same : r = q
  · rw [same]
  · have sides := apart_of_ne inv.apart hr hq same
    unfold UsbRegion.Apart at sides
    omega

theorem AtBoundary.next {live : List UsbRegion} {c : Nat} (free : Uncovered live c)
    (inside : c < usbBlockNum) : AtBoundary live (c + 1) := by
  refine ⟨inside, ?_⟩
  intro q hq before
  have outside := free q hq
  unfold UsbRegion.Covers at outside
  omega

theorem AtBoundary.zero (live : List UsbRegion) : AtBoundary live 0 :=
  ⟨Nat.zero_le _, fun _ _ before => absurd before (Nat.not_lt_zero _)⟩

theorem head_of_flag {p : UsbPool} {h : UsbHeap} {live : List UsbRegion} (inv : UsbInv p h live)
    {c : Nat} (at_c : AtBoundary live c) (inside : c < usbBlockNum)
    (flagged : hdrFlag h.mem (p.block c) ≠ 0) : ∃ r ∈ live, r.head = c := by
  by_contra none
  apply flagged
  apply inv.unflagged c inside
  intro r hr covers
  have within := at_c.2 r hr
  have other : r.head ≠ c := fun same => none ⟨r, hr, same⟩
  unfold UsbRegion.Covers at covers
  omega

theorem uncovered_of_flag {p : UsbPool} {h : UsbHeap} {live : List UsbRegion} (inv : UsbInv p h live)
    {c : Nat} (at_c : AtBoundary live c) (free : hdrFlag h.mem (p.block c) = 0) : Uncovered live c := by
  intro r hr covers
  have within := at_c.2 r hr
  have same : r.head = c := by
    unfold UsbRegion.Covers at covers
    omega
  have flag := (inv.kept r hr).flag
  rw [same, free] at flag
  exact absurd flag (by decide)

/-- A run of free blocks that may answer a request with this boundary; its size counts what is
left behind the header. -/
structure FreeRun (p : UsbPool) (live : List UsbRegion) (boundary : BitVec 32) (f k : Nat)
    (found : Int) : Prop where
  some : 0 < k
  inPool : f + k ≤ usbBlockNum
  free : ∀ b, f ≤ b → b < f + k → Uncovered live b
  size : found = (k * usbMemBlockSize : Nat) - (usbDataOffset boundary : Nat)
  onBoundary : usbBoundaryWord < boundary.toInt →
    f + 1 < usbBlockNum ∧ p.block (f + 1) % boundary.toNat = 0

structure SearchInv (p : UsbPool) (live : List UsbRegion) (boundary : BitVec 32) (st : UsbSearch)
    (c : Nat) : Prop where
  cur : st.cur = p.block c
  inside : c < usbBlockNum
  atBoundary : AtBoundary live c
  run : st.found ≠ -1 →
    ∃ f, st.pFound = p.block f ∧ f + st.blockCount = c ∧
      FreeRun p live boundary f st.blockCount st.found

theorem SearchInv.restart {p : UsbPool} {live : List UsbRegion} {boundary : BitVec 32} {c : Nat}
    {st : UsbSearch} (cur : st.cur = p.block c) (inside : c < usbBlockNum)
    (at_c : AtBoundary live c) (none : st.found = -1) : SearchInv p live boundary st c :=
  ⟨cur, inside, at_c, fun some => absurd none some⟩

theorem block_zero (p : UsbPool) : p.block 0 = p.base := by simp [UsbPool.block]

theorem freeRun_leading {p : UsbPool} {live : List UsbRegion} {boundary : BitVec 32} {c : Nat}
    (inside : c < usbBlockNum) (free : Uncovered live c)
    (some : usbLeading p boundary (p.block c) ≠ -1) :
    FreeRun p live boundary c 1 (usbLeading p boundary (p.block c)) := by
  have next : ptrAdd (p.block c) usbMemBlockSize = p.block (c + 1) := by
    have add := p.ptrAdd_block (b := c) (n := 1) inside
    simpa using add
  unfold usbLeading at some ⊢
  rw [next] at some ⊢
  refine ⟨Nat.one_pos, inside, ?_, ?_, ?_⟩
  · intro b low high
    have same : b = c := by omega
    exact same ▸ free
  · unfold usbDataOffset
    split_ifs at some ⊢ <;> simp [usbMemBlockSize, usbMhdrSize]
    exact absurd rfl some
  · intro wide
    rw [if_pos wide] at some
    split_ifs at some with violates
    · exact absurd rfl some
    · simp only [not_or, not_le, not_not, p.limit_le_block_iff] at violates
      exact violates

theorem FreeRun.extend {p : UsbPool} {live : List UsbRegion} {boundary : BitVec 32} {f k : Nat}
    {found : Int} (run : FreeRun p live boundary f k found) (inside : f + k < usbBlockNum)
    (free : Uncovered live (f + k)) :
    FreeRun p live boundary f (k + 1) (found + usbMemBlockSize) := by
  refine ⟨Nat.succ_pos k, inside, ?_, ?_, run.onBoundary⟩
  · intro b low high
    by_cases last : b = f + k
    · exact last ▸ free
    · exact run.free b low (by omega)
  · have size := run.size
    simp only [usbMemBlockSize] at size ⊢
    omega

def UsbSearch.moveTo (p : UsbPool) (st : UsbSearch) (c : Nat) : UsbSearch :=
  if c = usbBlockNum then { st with cur := p.base, wrap := true, found := -1 }
  else { st with cur := p.block c }

def UsbSearch.gather (p : UsbPool) (boundary : BitVec 32) (st : UsbSearch) (c : Nat) : UsbSearch :=
  if st.found = -1 then
    { st with pFound := p.block c, blockCount := 1, found := usbLeading p boundary (p.block c) }
  else { st with found := st.found + usbMemBlockSize, blockCount := st.blockCount + 1 }

theorem usbTurn_inv {p : UsbPool} {h : UsbHeap} {live : List UsbRegion} (inv : UsbInv p h live)
    {wanted boundary : BitVec 32} {st : UsbSearch} {c : Nat} (search : SearchInv p live boundary st c) :
    (∃ r ∈ live, r.head = c ∧ usbTurn p h.mem wanted boundary st =
      .next ({ st with found := -1 }.moveTo p (c + r.count))) ∨
    (Uncovered live c ∧ usbTurn p h.mem wanted boundary st =
      if wanted.toInt ≤ (st.gather p boundary c).found then
        .hit (st.gather p boundary c).pFound (st.gather p boundary c).blockCount
      else .next ((st.gather p boundary c).moveTo p (c + 1))) := by
  unfold usbTurn
  rw [search.cur]
  by_cases flagged : hdrFlag h.mem (p.block c) ≠ 0
  · obtain ⟨r, hr, same⟩ := head_of_flag inv search.atBoundary search.inside flagged
    have kept := inv.kept r hr
    subst same
    rw [if_pos flagged]
    have small : r.count < 2 ^ 32 := by
      have inPool := kept.inPool
      have pool : usbBlockNum = 256 := rfl
      omega
    left
    refine ⟨r, hr, rfl, ?_⟩
    unfold usbSkip UsbSearch.moveTo
    rw [search.cur, if_neg (not_not_intro kept.magic), if_pos kept.flag, kept.bcnt,
      BitVec.toNat_ofNat, Nat.mod_eq_of_lt small]
    simp only [p.ptrAdd_block kept.inPool, p.block_eq_limit_iff]
    split_ifs <;> rfl
  · rw [if_neg flagged]
    right
    refine ⟨uncovered_of_flag inv search.atBoundary (not_not.mp flagged), ?_⟩
    have add : ptrAdd (p.block c) usbMemBlockSize = p.block (c + 1) := by
      have add := p.ptrAdd_block (b := c) (n := 1) search.inside
      simpa using add
    have inside := search.inside
    have here : (st.gather p boundary c).cur = p.block c := by
      unfold UsbSearch.gather
      split_ifs <;> exact search.cur
    have step : usbGather p wanted boundary st =
        if wanted.toInt ≤ (st.gather p boundary c).found then
          .hit (st.gather p boundary c).pFound (st.gather p boundary c).blockCount
        else if p.limit ≤ ptrAdd (st.gather p boundary c).cur usbMemBlockSize then
          .next { st.gather p boundary c with cur := p.base, wrap := true, found := -1 }
        else .next { st.gather p boundary c with
          cur := ptrAdd (st.gather p boundary c).cur usbMemBlockSize } := by
      unfold UsbSearch.gather
      rw [← search.cur]
      rfl
    rw [step, here, add]
    simp only [UsbSearch.moveTo, p.limit_le_block_iff]
    split_ifs <;> first | rfl | omega

theorem SearchInv.gather_run {p : UsbPool} {live : List UsbRegion} {boundary : BitVec 32}
    {st : UsbSearch} {c : Nat} (search : SearchInv p live boundary st c) (free : Uncovered live c)
    (some : (st.gather p boundary c).found ≠ -1) :
    ∃ f, (st.gather p boundary c).pFound = p.block f ∧
      f + (st.gather p boundary c).blockCount = c + 1 ∧
      FreeRun p live boundary f (st.gather p boundary c).blockCount (st.gather p boundary c).found := by
  unfold UsbSearch.gather at some ⊢
  split_ifs at some ⊢ with leading
  · exact ⟨c, rfl, rfl, freeRun_leading search.inside free some⟩
  · obtain ⟨f, found, length, run⟩ := search.run leading
    refine ⟨f, found, by simp only; omega, ?_⟩
    exact run.extend (by rw [length]; exact search.inside) (by rw [length]; exact free)

theorem SearchInv.moveTo {p : UsbPool} {live : List UsbRegion} {boundary : BitVec 32} {st : UsbSearch}
    {c : Nat} (at_c : AtBoundary live c)
    (run : st.found ≠ -1 → ∃ f, st.pFound = p.block f ∧ f + st.blockCount = c ∧
      FreeRun p live boundary f st.blockCount st.found) :
    SearchInv p live boundary (st.moveTo p c) (if c = usbBlockNum then 0 else c) := by
  unfold UsbSearch.moveTo
  split_ifs with atEnd
  · exact .restart (block_zero p).symm (by decide) (.zero live) rfl
  · exact ⟨rfl, lt_of_le_of_ne at_c.1 atEnd, at_c, run⟩

theorem SearchInv.skip {p : UsbPool} {live : List UsbRegion} {c : Nat} (boundary : BitVec 32)
    (st : UsbSearch) (at_c : AtBoundary live c) :
    SearchInv p live boundary ({ st with found := -1 }.moveTo p c) (if c = usbBlockNum then 0 else c) :=
  .moveTo at_c fun some => absurd rfl some

theorem usbTurn_cases {p : UsbPool} {h : UsbHeap} {live : List UsbRegion} (inv : UsbInv p h live)
    {wanted boundary : BitVec 32} (asked : 0 ≤ wanted.toInt) {st : UsbSearch} {c : Nat}
    (search : SearchInv p live boundary st c) :
    (∃ st' c', usbTurn p h.mem wanted boundary st = .next st' ∧ SearchInv p live boundary st' c') ∨
    ∃ f k found, usbTurn p h.mem wanted boundary st = .hit (p.block f) k ∧
      FreeRun p live boundary f k found ∧ wanted.toInt ≤ found := by
  rcases usbTurn_inv inv search with ⟨r, hr, same, turn⟩ | ⟨free, turn⟩
  · left
    have behind := AtBoundary.stop inv hr
    rw [same] at behind
    exact ⟨_, _, turn, .skip boundary st behind⟩
  · rw [turn]
    split_ifs with large
    · right
      obtain ⟨f, found, -, whole⟩ := search.gather_run free (by omega)
      exact ⟨f, _, _, by rw [found], whole, large⟩
    · left
      exact ⟨_, _, rfl, .moveTo (AtBoundary.next free search.inside) (search.gather_run free)⟩

theorem usbSearchLoop_cases {p : UsbPool} {h : UsbHeap} {live : List UsbRegion}
    (inv : UsbInv p h live) {wanted boundary : BitVec 32} (asked : 0 ≤ wanted.toInt)
    (primitive : Nat) (turns : Nat) : ∀ {st : UsbSearch} {c : Nat} {found : Option (Nat × Nat)}
    {cur : Nat}, SearchInv p live boundary st c →
      usbSearchLoop p h.mem wanted boundary primitive turns st = some (found, cur) →
      (found = none ∧ ∃ c', cur = p.block c' ∧ AtBoundary live c') ∨
      ∃ f k size, found = some (p.block f, k) ∧ FreeRun p live boundary f k size ∧
        wanted.toInt ≤ size := by
  induction turns with
  | zero =>
    intro st c found cur _ result
    cases result
  | succ n ih =>
    intro st c found cur search result
    rw [usbSearchLoop] at result
    rcases usbTurn_cases inv asked search with ⟨st', c', turn, search'⟩ | ⟨f, k, size, turn, run, large⟩
    · rw [turn] at result
      simp only at result
      split_ifs at result with again
      · exact ih search' result
      · cases result
        exact .inl ⟨rfl, c', search'.cur, search'.atBoundary⟩
    · rw [turn] at result
      cases result
      exact .inr ⟨f, k, size, rfl, run, large⟩

end NuMakerMA35
