import NuMakerMA35.UsbHeapInv
import NuMakerMA35.Runs

namespace NuMakerMA35

open Words

theorem usbFlagBlocks_outside (p : UsbPool) (flag : U32) (n : Nat) : ∀ {mem : Mem} {f x : Nat},
    f + n ≤ usbBlockNum → (∀ b, f ≤ b → b < f + n → x < p.block b ∨ p.block b + 4 ≤ x) →
      usbFlagBlocks flag n mem (p.block f) x = mem x := by
  induction n with
  | zero =>
    intro mem f x _ _
    rfl
  | succ n ih =>
    intro mem f x inPool outside
    have step : ptrAdd (p.block f) usbMemBlockSize = p.block (f + 1) := by
      have add := p.ptrAdd_block (b := f) (n := 1) (by omega)
      simpa using add
    rw [usbFlagBlocks, step, ih (by omega) fun b low high => outside b (by omega) (by omega)]
    exact write32_outside flag (outside f (Nat.le_refl f) (by omega))

theorem block_lt_block {p : UsbPool} {b c : Nat} (h : b < c) : p.block b + usbMemBlockSize ≤ p.block c := by
  simp only [UsbPool.block, usbMemBlockSize]
  omega

theorem usbFlagBlocks_flag (p : UsbPool) (flag : U32) (n : Nat) : ∀ {mem : Mem} {f b : Nat},
    f + n ≤ usbBlockNum → f ≤ b → b < f + n →
      hdrFlag (usbFlagBlocks flag n mem (p.block f)) (p.block b) = flag := by
  induction n with
  | zero =>
    intro mem f b _ low high
    omega
  | succ n ih =>
    intro mem f b inPool low high
    have step : ptrAdd (p.block f) usbMemBlockSize = p.block (f + 1) := by
      have add := p.ptrAdd_block (b := f) (n := 1) (by omega)
      simpa using add
    rw [usbFlagBlocks, step]
    by_cases first : b = f
    · subst first
      have kept : hdrFlag (usbFlagBlocks flag n (write32 mem (p.block b) flag) (p.block (b + 1)))
          (p.block b) = hdrFlag (write32 mem (p.block b) flag) (p.block b) := by
        apply read32_congr
        intro x low high
        apply usbFlagBlocks_outside p flag n (by omega)
        intro c above _
        have apart := block_lt_block (p := p) (show b < c by omega)
        simp only [usbMemBlockSize] at apart
        omega
      rw [kept]
      exact read32_write32 mem (p.block b) flag
    · exact ih (by omega) (by omega) (by omega)

theorem usbTake_mem (p : UsbPool) (h : UsbHeap) {f k : Nat} (some : 0 < k)
    (inPool : f + k ≤ usbBlockNum) :
    hdrFlag (usbTake h (p.block f) k).mem (p.block f) = 0x3 ∧
      hdrBcnt (usbTake h (p.block f) k).mem (p.block f) = BitVec.ofNat 32 k ∧
      hdrMagic (usbTake h (p.block f) k).mem (p.block f) = usbMemAllocMagic ∧
      ∀ x, x < p.block f ∨ p.block (f + k) ≤ x → (usbTake h (p.block f) k).mem x = h.mem x := by
  have span := block_lt_block (p := p) (show f < f + k by omega)
  simp only [usbMemBlockSize] at span
  have flags : ∀ {mem : Mem} {x : Nat},
      (p.block f + 4 ≤ x ∧ x < p.block f + 128) ∨ x < p.block f ∨ p.block (f + k) ≤ x →
      usbFlagBlocks 1 k mem (p.block f) x = mem x := by
    intro mem x place
    apply usbFlagBlocks_outside p 1 k inPool
    intro b low high
    have last := block_lt_block (p := p) high
    simp only [usbMemBlockSize] at last
    by_cases first : b = f
    · subst first
      omega
    · have later := block_lt_block (p := p) (show f < b by omega)
      simp only [usbMemBlockSize] at later
      omega
  refine ⟨?_, ?_, ?_, ?_⟩
  · exact read32_write32 _ _ _
  · have other : hdrBcnt (usbTake h (p.block f) k).mem (p.block f) =
        hdrBcnt (write32 (write32 h.mem (p.block f + 4) (BitVec.ofNat 32 k)) (p.block f + 8)
          usbMemAllocMagic) (p.block f) := by
      apply read32_congr
      intro x low high
      rw [usbTake]
      simp only
      rw [write32_outside _ (by omega), flags (by omega)]
    rw [other, hdrBcnt, read32_write32_other _ (by omega), read32_write32]
  · have other : hdrMagic (usbTake h (p.block f) k).mem (p.block f) =
        hdrMagic (write32 (write32 h.mem (p.block f + 4) (BitVec.ofNat 32 k)) (p.block f + 8)
          usbMemAllocMagic) (p.block f) := by
      apply read32_congr
      intro x low high
      rw [usbTake]
      simp only
      rw [write32_outside _ (by omega), flags (by omega)]
    rw [other, hdrMagic, read32_write32]
  · intro x outside
    rw [usbTake]
    simp only
    rw [write32_outside _ (by omega), flags (by omega), write32_outside _ (by omega),
      write32_outside _ (by omega)]

theorem header_congr {mem mem' : Mem} {hdr : Nat}
    (same : ∀ x, hdr ≤ x → x < hdr + usbMhdrSize → mem' x = mem x) :
    hdrFlag mem' hdr = hdrFlag mem hdr ∧ hdrBcnt mem' hdr = hdrBcnt mem hdr ∧
      hdrMagic mem' hdr = hdrMagic mem hdr := by
  have size : usbMhdrSize = 16 := rfl
  refine ⟨read32_congr ?_, read32_congr ?_, read32_congr ?_⟩
  · exact fun x low high => same x low (by omega)
  · exact fun x low high => same x (by omega) (by omega)
  · exact fun x low high => same x (by omega) (by omega)

theorem UsbRegion.Kept.congr {p : UsbPool} {mem mem' : Mem} {r : UsbRegion} (kept : r.Kept p mem)
    (same : ∀ x, p.block r.head ≤ x → x < p.block r.head + usbMhdrSize → mem' x = mem x) :
    r.Kept p mem' := by
  obtain ⟨flag, bcnt, magic⟩ := header_congr same
  exact { kept with
    flag := flag.trans kept.flag
    bcnt := bcnt.trans kept.bcnt
    magic := magic.trans kept.magic }

theorem apart_of_free {live : List UsbRegion} {f k : Nat} {q : UsbRegion} (some : 0 < k)
    (free : ∀ b, f ≤ b → b < f + k → Uncovered live b) (hq : q ∈ live) (count : 0 < q.count) :
    f + k ≤ q.head ∨ q.head + q.count ≤ f := by
  have atStart := free f (Nat.le_refl f) (by omega) q hq
  have atHead : f ≤ q.head → q.head < f + k → ¬q.Covers q.head :=
    fun low high => free q.head low high q hq
  unfold UsbRegion.Covers at atStart atHead
  omega

theorem freeBlocks_cons {live : List UsbRegion} (r : UsbRegion) :
    freeBlocks (r :: live) = freeBlocks live \ Finset.Ico r.head (r.head + r.count) := by
  ext b
  simp only [freeBlocks, Finset.mem_filter, Finset.mem_range, Finset.mem_sdiff, Finset.mem_Ico,
    Uncovered, List.forall_mem_cons, UsbRegion.Covers]
  tauto

theorem card_freeBlocks_cons (live : List UsbRegion) {r : UsbRegion}
    (inPool : r.head + r.count ≤ usbBlockNum)
    (free : ∀ b, r.head ≤ b → b < r.head + r.count → Uncovered live b) :
    (freeBlocks (r :: live)).card + r.count = (freeBlocks live).card := by
  have inside : Finset.Ico r.head (r.head + r.count) ⊆ freeBlocks live := by
    intro b hb
    rw [Finset.mem_Ico] at hb
    rw [freeBlocks, Finset.mem_filter, Finset.mem_range]
    exact ⟨by omega, free b hb.1 hb.2⟩
  have card := Finset.card_sdiff_add_card_eq_card inside
  rw [Nat.card_Ico] at card
  rw [freeBlocks_cons]
  omega

theorem freeBlocks_nil : (freeBlocks []).card = usbBlockNum := by
  have all : ∀ b, Uncovered [] b := fun b r hr => nomatch hr
  rw [freeBlocks, Finset.filter_true_of_mem fun b _ => all b, Finset.card_range]

theorem freeBlocks_card_le (live : List UsbRegion) : (freeBlocks live).card ≤ usbBlockNum := by
  have filtered := Finset.card_filter_le (Finset.range usbBlockNum) (Uncovered live)
  rwa [Finset.card_range] at filtered

theorem sizes_take {free alloc : U32} {n : Nat}
    (total : free.toNat + alloc.toNat = usbMemoryPoolSize) (enough : n * usbMemBlockSize ≤ free.toNat) :
    (free - BitVec.ofNat 32 (n * usbMemBlockSize)).toNat = free.toNat - n * usbMemBlockSize ∧
      (alloc + BitVec.ofNat 32 (n * usbMemBlockSize)).toNat = alloc.toNat + n * usbMemBlockSize := by
  simp only [usbMemoryPoolSize, usbMemBlockSize] at *
  simp only [BitVec.toNat_sub, BitVec.toNat_add, BitVec.toNat_ofNat, Nat.reducePow]
  omega

theorem UsbInv.take {p : UsbPool} {h : UsbHeap} {live : List UsbRegion} (inv : UsbInv p h live)
    {wanted boundary : BitVec 32} {f k : Nat} {size : Int} (asked : 0 ≤ wanted.toInt)
    (run : FreeRun p live boundary f k size) (large : wanted.toInt ≤ size) :
    UsbInv p (usbTake h (p.block f) k) (⟨f, k, wanted, boundary⟩ :: live) := by
  obtain ⟨flag, bcnt, magic, outside⟩ := usbTake_mem p h run.some run.inPool
  have beside : ∀ q ∈ live, f + k ≤ q.head ∨ q.head + q.count ≤ f :=
    fun q hq => apart_of_free run.some run.free hq (inv.kept q hq).some
  have card := card_freeBlocks_cons live (r := ⟨f, k, wanted, boundary⟩) run.inPool run.free
  have free := inv.free
  have enough : k * usbMemBlockSize ≤ h.freeMemorySize.toNat := by
    simp only [usbMemBlockSize] at free ⊢
    simp only at card
    omega
  obtain ⟨lessFree, moreAllocated⟩ := sizes_take inv.total enough
  constructor
  · intro r hr
    rcases List.mem_cons.mp hr with same | old
    · subst same
      have sized := run.size
      have wide := run.onBoundary
      have dataBlock : usbBoundaryWord < boundary.toInt →
          p.block f + usbDataOffset boundary = p.block (f + 1) := by
        intro above
        simp only [usbDataOffset, if_pos above, UsbPool.block, usbMemBlockSize]
        omega
      refine ⟨run.some, run.inPool, flag, bcnt, magic, ?_, ?_, asked, ?_⟩
      · rw [← p.block_limit]
        by_cases above : usbBoundaryWord < boundary.toInt
        · have next := block_lt_block (p := p) (wide above).1
          change p.block f + usbDataOffset boundary < _
          rw [dataBlock above]
          simp only [usbMemBlockSize] at next
          omega
        · have inPool := run.inPool
          have some := run.some
          have next := block_lt_block (p := p) (show f < usbBlockNum by omega)
          simp only [UsbRegion.ptr, usbDataOffset, if_neg above, usbMhdrSize]
          simp only [usbMemBlockSize] at next
          omega
      · simp only [UsbRegion.ptr, UsbRegion.stop, UsbPool.block, usbMemBlockSize] at sized ⊢
        omega
      · intro above
        change (p.block f + usbDataOffset boundary) % boundary.toNat = 0
        rw [dataBlock above]
        exact (wide above).2
    · apply (inv.kept r old).congr
      intro x low high
      apply outside
      have sides := beside r old
      have some := (inv.kept r old).some
      simp only [UsbPool.block, usbMemBlockSize, usbMhdrSize] at low high ⊢
      omega
  · exact List.pairwise_cons.mpr ⟨beside, inv.apart⟩
  · intro b inPool uncovered
    have bare : Uncovered live b := fun q hq => uncovered q (List.mem_cons_of_mem _ hq)
    have other := uncovered _ List.mem_cons_self
    have same : hdrFlag (usbTake h (p.block f) k).mem (p.block b) = hdrFlag h.mem (p.block b) := by
      apply read32_congr
      intro x low high
      apply outside
      simp only [UsbRegion.Covers] at other
      simp only [UsbPool.block, usbMemBlockSize] at low high ⊢
      omega
    rw [same]
    exact inv.unflagged b inPool bare
  · refine ⟨f + k, p.ptrAdd_block run.inPool, run.inPool, ?_⟩
    intro q hq before
    rcases List.mem_cons.mp hq with same | old
    · subst same
      exact Nat.le_refl _
    · have sides := beside q old
      omega
  · rw [usbTake]
    simp only at card ⊢
    rw [lessFree, free]
    simp only [usbMemBlockSize]
    omega
  · rw [usbTake]
    simp only
    rw [lessFree, moreAllocated]
    have total := inv.total
    omega

theorem UsbInv.moveRover {p : UsbPool} {h : UsbHeap} {live : List UsbRegion} (inv : UsbInv p h live)
    {cur : Nat} (place : ∃ c, cur = p.block c ∧ AtBoundary live c) :
    UsbInv p { h with pCurrent := cur } live :=
  { inv with rover := place }

theorem UsbInv.asked {p : UsbPool} {h : UsbHeap} {live : List UsbRegion} (inv : UsbInv p h live)
    {wanted : BitVec 32} (below : ¬h.freeMemorySize ≤ wanted) : 0 ≤ wanted.toInt := by
  have free := inv.free
  have most := freeBlocks_card_le live
  have pool : usbBlockNum = 256 := rfl
  rw [BitVec.le_def] at below
  simp only [usbMemBlockSize] at free
  rw [BitVec.toInt_eq_toNat_cond]
  split_ifs <;> omega

theorem UsbInv.begin {p : UsbPool} {h : UsbHeap} {live : List UsbRegion} (inv : UsbInv p h live)
    (boundary : BitVec 32) : ∃ c, SearchInv p live boundary
      ⟨if p.limit ≤ h.pCurrent then p.base else h.pCurrent, -1, 0, 0, false⟩ c := by
  obtain ⟨c, rover, at_c⟩ := inv.rover
  split_ifs with behind
  · exact ⟨0, .restart (block_zero p).symm (by decide) (.zero live) rfl⟩
  · rw [rover, p.limit_le_block_iff, not_le] at behind
    exact ⟨c, .restart rover behind at_c rfl⟩

theorem usbMalloc_cases {p : UsbPool} {h h' : UsbHeap} {live : List UsbRegion} (inv : UsbInv p h live)
    {turns : Nat} {wanted boundary : BitVec 32} {ptr : Nat}
    (result : usbMalloc p turns h wanted boundary = some (h', ptr)) :
    (ptr = 0 ∧ UsbInv p h' live) ∨
    ∃ f k, ptr = UsbRegion.ptr p ⟨f, k, wanted, boundary⟩ ∧
      hdrBcnt h'.mem (p.block f) = BitVec.ofNat 32 k ∧ f + k ≤ usbBlockNum ∧
      UsbInv p h' (⟨f, k, wanted, boundary⟩ :: live) := by
  rw [usbMalloc] at result
  by_cases refused : h.freeMemorySize ≤ wanted
  · rw [if_pos refused] at result
    cases result
    exact .inl ⟨rfl, inv⟩
  · have asked := inv.asked refused
    obtain ⟨c', begin⟩ := inv.begin boundary
    rw [if_neg refused] at result
    simp only at result
    generalize (if p.limit ≤ h.pCurrent then p.base else h.pCurrent) = start at begin result
    cases search : usbSearchLoop p h.mem wanted boundary h.pCurrent turns ⟨start, -1, 0, 0, false⟩ with
    | none =>
      rw [search] at result
      cases result
    | some out =>
      obtain ⟨found, cur⟩ := out
      rw [search] at result
      rcases usbSearchLoop_cases inv asked h.pCurrent turns begin search with
        ⟨none, place⟩ | ⟨f, k, size, some, run, large⟩
      · subst none
        cases result
        exact .inl ⟨rfl, inv.moveRover place⟩
      · subst some
        cases result
        have taken := inv.take asked run large
        refine .inr ⟨f, k, ?_, (usbTake_mem p h run.some run.inPool).2.1, run.inPool, taken⟩
        have fits := p.fits
        have inPool := run.inPool
        have some := run.some
        have pool : usbBlockNum = 256 := rfl
        unfold UsbRegion.ptr usbDataOffset ptrAdd
        simp only [UsbPool.block, usbMemBlockSize, usbMhdrSize, usbMemoryPoolSize] at fits ⊢
        split_ifs
        · exact Nat.mod_eq_of_lt (by omega)
        · exact Nat.mod_eq_of_lt (by omega)

end NuMakerMA35
