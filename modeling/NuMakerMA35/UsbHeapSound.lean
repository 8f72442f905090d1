import NuMakerMA35.UsbHeapRun

namespace NuMakerMA35

open Words

theorem freeBlocks_erase {p : UsbPool} {h : UsbHeap} {live : List UsbRegion} (inv : UsbInv p h live)
    {r : UsbRegion} (hr : r ∈ live) :
    (freeBlocks (live.erase r)).card = (freeBlocks live).card + r.count := by
  have order := List.perm_cons_erase hr
  have apart : (r :: live.erase r).Pairwise UsbRegion.Apart := order.pairwise inv.apart fun h => h.symm
  have same : freeBlocks (r :: live.erase r) = freeBlocks live := by
    ext b
    simp only [freeBlocks, Finset.mem_filter, Finset.mem_range, Uncovered]
    constructor
    · rintro ⟨inPool, all⟩
      exact ⟨inPool, fun q hq => all q (order.mem_iff.mp hq)⟩
    · rintro ⟨inPool, all⟩
      exact ⟨inPool, fun q hq => all q (order.mem_iff.mpr hq)⟩
  have card := card_freeBlocks_cons (live.erase r) (r := r) (inv.kept r hr).inPool ?_
  · rw [same] at card
    omega
  · intro b low high q hq covers
    have sides := (List.pairwise_cons.mp apart).1 q hq
    unfold UsbRegion.Apart at sides
    unfold UsbRegion.Covers at covers
    omega

theorem usbHeaderOf_ptr {p : UsbPool} {mem : Mem} {r : UsbRegion} (kept : r.Kept p mem) :
    p.base ≤ r.ptr p ∧ r.ptr p < p.limit ∧ usbHeaderOf (r.ptr p) = p.block r.head ∧
      p.block r.head % usbMemBlockSize = 0 := by
  obtain ⟨m, base⟩ := p.aligned
  have dataIn := kept.dataIn
  refine ⟨?_, dataIn, ?_, ?_⟩
  · simp only [UsbRegion.ptr, UsbPool.block]
    omega
  · unfold usbHeaderOf UsbRegion.ptr usbDataOffset
    simp only [UsbPool.block, usbMemBlockSize, usbMhdrSize] at base ⊢
    split_ifs <;> omega
  · simp only [UsbPool.block, usbMemBlockSize] at base ⊢
    omega

theorem usbFree_live {p : UsbPool} {h : UsbHeap} {live : List UsbRegion} (inv : UsbInv p h live)
    {r : UsbRegion} (hr : r ∈ live) :
    usbFree p h (r.ptr p) = { h with
      mem := usbFlagBlocks 0 r.count h.mem (p.block r.head)
      freeMemorySize := h.freeMemorySize + BitVec.ofNat 32 (r.count * usbMemBlockSize)
      allocatedMemorySize := h.allocatedMemorySize - BitVec.ofNat 32 (r.count * usbMemBlockSize) } := by
  have kept := inv.kept r hr
  obtain ⟨low, high, header, aligned⟩ := usbHeaderOf_ptr kept
  have inPool := kept.inPool
  have pool : usbBlockNum = 256 := rfl
  have flag : hdrFlag h.mem (p.block r.head) ≠ 0 := by
    rw [kept.flag]
    decide
  have count : (BitVec.ofNat 32 r.count).toInt.toNat = r.count := by
    rw [BitVec.toInt_ofNat']
    rw [Int.bmod_def]
    split_ifs <;> omega
  have size : BitVec.ofNat 32 r.count * BitVec.ofNat 32 usbMemBlockSize =
      BitVec.ofNat 32 (r.count * usbMemBlockSize) := by
    apply BitVec.eq_of_toNat_eq
    simp only [BitVec.toNat_mul, BitVec.toNat_ofNat, usbMemBlockSize]
    omega
  unfold usbFree
  rw [if_neg (by omega), header, if_neg (not_not_intro aligned), if_neg flag,
    if_neg (not_not_intro kept.magic)]
  simp only [kept.bcnt, count, size]

theorem UsbInv.free_live {p : UsbPool} {h : UsbHeap} {live : List UsbRegion} (inv : UsbInv p h live)
    {r : UsbRegion} (hr : r ∈ live) : UsbInv p (usbFree p h (r.ptr p)) (live.erase r) := by
  have kept := inv.kept r hr
  have inPool := kept.inPool
  have some := kept.some
  have pool : usbBlockNum = 256 := rfl
  have apart : (r :: live.erase r).Pairwise UsbRegion.Apart :=
    (List.perm_cons_erase hr).pairwise inv.apart fun h => h.symm
  have beside : ∀ q ∈ live.erase r, r.Apart q := (List.pairwise_cons.mp apart).1
  have old : ∀ q ∈ live.erase r, q ∈ live := fun q hq => List.mem_of_mem_erase hq
  have outside : ∀ {x : Nat}, x < p.block r.head ∨ p.block (r.head + r.count) ≤ x →
      usbFlagBlocks 0 r.count h.mem (p.block r.head) x = h.mem x := by
    intro x place
    apply usbFlagBlocks_outside p 0 r.count inPool
    intro b low high
    simp only [UsbPool.block, usbMemBlockSize] at place ⊢
    omega
  have card := freeBlocks_erase inv hr
  have most := freeBlocks_card_le (live.erase r)
  have free := inv.free
  have total := inv.total
  have sizes : (h.freeMemorySize + BitVec.ofNat 32 (r.count * usbMemBlockSize)).toNat =
        h.freeMemorySize.toNat + r.count * usbMemBlockSize ∧
      (h.allocatedMemorySize - BitVec.ofNat 32 (r.count * usbMemBlockSize)).toNat =
        h.allocatedMemorySize.toNat - r.count * usbMemBlockSize ∧
      r.count * usbMemBlockSize ≤ h.allocatedMemorySize.toNat := by
    simp only [BitVec.toNat_sub, BitVec.toNat_add, BitVec.toNat_ofNat, Nat.reducePow,
      usbMemoryPoolSize, usbMemBlockSize] at *
    omega
  obtain ⟨moreFree, lessAllocated, enough⟩ := sizes
  rw [usbFree_live inv hr]
  constructor
  · intro q hq
    apply (inv.kept q (old q hq)).congr
    intro x low high
    apply outside
    have sides := beside q hq
    have someQ := (inv.kept q (old q hq)).some
    simp only [UsbRegion.Apart, UsbPool.block, usbMemBlockSize, usbMhdrSize] at sides low high ⊢
    omega
  · exact (List.pairwise_cons.mp apart).2
  · intro b inPoolB uncovered
    by_cases own : r.Covers b
    · exact usbFlagBlocks_flag p 0 r.count inPool own.1 own.2
    · have same : hdrFlag (usbFlagBlocks 0 r.count h.mem (p.block r.head)) (p.block b) =
          hdrFlag h.mem (p.block b) := by
        apply read32_congr
        intro x low high
        apply outside
        simp only [UsbRegion.Covers, UsbPool.block, usbMemBlockSize] at own low high ⊢
        omega
      refine same.trans (inv.unflagged b inPoolB ?_)
      intro q hq covers
      by_cases itself : q = r
      · exact own (itself ▸ covers)
      · exact uncovered q ((List.mem_erase_of_ne itself).mpr hq) covers
  · obtain ⟨c, rover, within, at_c⟩ := inv.rover
    exact ⟨c, rover, within, fun q hq => at_c q (old q hq)⟩
  · rw [moreFree, card, free]
    simp only [usbMemBlockSize]
    omega
  · rw [moreFree, lessAllocated]
    omega

theorem UsbInv.write {p : UsbPool} {h : UsbHeap} {live : List UsbRegion} (inv : UsbInv p h live)
    {r : UsbRegion} (hr : r ∈ live) {x : Nat} (low : r.ptr p ≤ x) (high : x < r.stop p)
    (v : BitVec 8) : UsbInv p { h with mem := Function.update h.mem x v } live := by
  have offset := usbMhdrSize_le_dataOffset r.boundary
  have some := (inv.kept r hr).some
  simp only [UsbRegion.ptr, UsbRegion.stop, UsbPool.block, usbMemBlockSize, usbMhdrSize] at low high offset
  constructor
  · intro q hq
    apply (inv.kept q hq).congr
    intro y lowY highY
    have other : y ≠ x := by
      simp only [UsbPool.block, usbMemBlockSize, usbMhdrSize] at lowY highY
      by_cases same : q = r
      · subst same
        omega
      · have sides := apart_of_ne inv.apart hq hr same
        have someQ := (inv.kept q hq).some
        unfold UsbRegion.Apart at sides
        omega
    simp [other]
  · exact inv.apart
  · intro b inPool uncovered
    have outside := uncovered r hr
    have same : hdrFlag (Function.update h.mem x v) (p.block b) = hdrFlag h.mem (p.block b) := by
      apply read32_update
      simp only [UsbRegion.Covers, UsbPool.block, usbMemBlockSize] at outside ⊢
      omega
    exact same.trans (inv.unflagged b inPool uncovered)
  · exact inv.rover
  · exact inv.free
  · exact inv.total

theorem UsbInv.init (p : UsbPool) (mem : Mem) : UsbInv p (usbInitializeMemoryPool p mem) [] := by
  constructor
  · exact fun r hr => nomatch hr
  · exact .nil
  · intro b inPool _
    have zero : hdrFlag (usbInitializeMemoryPool p mem).mem (p.block b) =
        read32 (fun _ => 0) (p.block b) := by
      apply read32_congr
      intro x low high
      have inside : p.base ≤ x ∧ x < p.limit := by
        have next := block_lt_block (p := p) inPool
        rw [p.block_limit] at next
        simp only [usbMemBlockSize, UsbPool.block] at next low high ⊢
        omega
      exact if_pos inside
    rw [zero]
    simp [read32]
  · exact ⟨0, (block_zero p).symm, .zero []⟩
  · rw [freeBlocks_nil]
    rfl
  · rfl

structure UsbRun where
  heap : UsbHeap
  live : List UsbRegion

/-- The region behind a pointer `USB_malloc` just returned, as its header tells. -/
def usbRegionAt (p : UsbPool) (mem : Mem) (ptr : Nat) (wanted boundary : BitVec 32) : UsbRegion :=
  let hdr := ptr - usbDataOffset boundary
  ⟨(hdr - p.base) / usbMemBlockSize, (hdrBcnt mem hdr).toNat, wanted, boundary⟩

/-- Calls that return, and clients writing bytes of regions that are theirs. -/
inductive UsbStep (p : UsbPool) : UsbRun → UsbRun → Prop where
  | refused {s : UsbRun} {h : UsbHeap} {turns : Nat} {wanted boundary : BitVec 32} :
    usbMalloc p turns s.heap wanted boundary = some (h, 0) → UsbStep p s ⟨h, s.live⟩
  | malloc {s : UsbRun} {h : UsbHeap} {turns ptr : Nat} {wanted boundary : BitVec 32} :
    usbMalloc p turns s.heap wanted boundary = some (h, ptr) → ptr ≠ 0 →
      UsbStep p s ⟨h, usbRegionAt p h.mem ptr wanted boundary :: s.live⟩
  | free {s : UsbRun} {r : UsbRegion} : r ∈ s.live →
    UsbStep p s ⟨usbFree p s.heap (r.ptr p), s.live.erase r⟩
  | write {s : UsbRun} {r : UsbRegion} {x : Nat} (v : BitVec 8) : r ∈ s.live →
    r.ptr p ≤ x → x < r.stop p →
      UsbStep p s ⟨{ s.heap with mem := Function.update s.heap.mem x v }, s.live⟩

def UsbReachable (p : UsbPool) (s : UsbRun) : Prop :=
  ∃ mem, Relation.ReflTransGen (UsbStep p) ⟨usbInitializeMemoryPool p mem, []⟩ s

theorem usbRegionAt_ptr {p : UsbPool} {mem : Mem} {f k : Nat} {wanted boundary : BitVec 32}
    (bcnt : hdrBcnt mem (p.block f) = BitVec.ofNat 32 k) (inPool : f + k ≤ usbBlockNum) :
    usbRegionAt p mem (UsbRegion.ptr p ⟨f, k, wanted, boundary⟩) wanted boundary =
      ⟨f, k, wanted, boundary⟩ := by
  have header : UsbRegion.ptr p ⟨f, k, wanted, boundary⟩ - usbDataOffset boundary = p.block f :=
    Nat.add_sub_cancel _ _
  have pool : usbBlockNum = 256 := rfl
  have count : (BitVec.ofNat 32 k).toNat = k := by
    rw [BitVec.toNat_ofNat]
    exact Nat.mod_eq_of_lt (by omega)
  have head : (p.block f - p.base) / usbMemBlockSize = f := by
    simp only [UsbPool.block, usbMemBlockSize]
    omega
  unfold usbRegionAt
  rw [header]
  simp only [bcnt, count, head]

theorem UsbInv.step {p : UsbPool} {s t : UsbRun} (inv : UsbInv p s.heap s.live) (step : UsbStep p s t) :
    UsbInv p t.heap t.live := by
  cases step with
  | refused result =>
    rcases usbMalloc_cases inv result with ⟨-, kept⟩ | ⟨f, k, ptr, -, -, taken⟩
    · exact kept
    · exact absurd ptr.symm (UsbRegion.ptr_ne_zero p _)
  | malloc result given =>
    rcases usbMalloc_cases inv result with ⟨none, -⟩ | ⟨f, k, ptr, bcnt, inPool, taken⟩
    · exact absurd none given
    · subst ptr
      rw [usbRegionAt_ptr bcnt inPool]
      exact taken
  | free hr => exact inv.free_live hr
  | write v hr low high => exact inv.write hr low high v

theorem usbReachable_inv {p : UsbPool} {s : UsbRun} (reach : UsbReachable p s) :
    UsbInv p s.heap s.live := by
  obtain ⟨mem, run⟩ := reach
  induction run with
  | refl => exact .init p mem
  | tail _ last ih => exact ih.step last

/-- Freeing every live region, in any order, gives the amounts of a fresh pool. -/
theorem usbFree_all {p : UsbPool} : ∀ {rs live : List UsbRegion} {h : UsbHeap}, UsbInv p h live →
    rs.Perm live → UsbInv p ((rs.map (UsbRegion.ptr p)).foldl (usbFree p) h) [] := by
  intro rs
  induction rs with
  | nil =>
    intro live h inv order
    rw [List.nil_perm.mp order] at inv
    exact inv
  | cons r rs ih =>
    intro live h inv order
    obtain ⟨hr, rest⟩ := List.cons_perm_iff_perm_erase.mp order
    exact ih (inv.free_live hr) rest

/-- What a user of the pool may rely on: each region has a header, its bytes behind it and the
size asked for, all regions are apart, and the two amounts are those of the blocks. -/
structure UsbSound (p : UsbPool) (s : UsbRun) : Prop where
  inPool : ∀ r ∈ s.live, p.base ≤ p.block r.head ∧ r.stop p ≤ p.limit
  behindHeader : ∀ r ∈ s.live, p.block r.head + usbMhdrSize ≤ r.ptr p
  large : ∀ r ∈ s.live, 0 ≤ r.wanted.toInt ∧ (r.ptr p : Int) + r.wanted.toInt ≤ r.stop p
  disjoint : s.live.Pairwise fun r q => r.stop p ≤ p.block q.head ∨ q.stop p ≤ p.block r.head
  onBoundary : ∀ r ∈ s.live, usbBoundaryWord < r.boundary.toInt → r.boundary.toNat ∣ r.ptr p
  onWord : ∀ r ∈ s.live, r.boundary.toInt ≤ usbBoundaryWord → usbMhdrSize ∣ r.ptr p
  total : s.heap.freeMemorySize.toNat + s.heap.allocatedMemorySize.toNat = usbMemoryPoolSize
  free : s.heap.freeMemorySize.toNat = usbMemBlockSize * (freeBlocks s.live).card
  restored : ∀ rs : List UsbRegion, rs.Perm s.live →
    let h := (rs.map (UsbRegion.ptr p)).foldl (usbFree p) s.heap
    h.freeMemorySize.toNat = usbMemoryPoolSize ∧ h.allocatedMemorySize.toNat = 0

theorem usb_heap_sound {p : UsbPool} {s : UsbRun} (reach : UsbReachable p s) : UsbSound p s := by
  have inv := usbReachable_inv reach
  constructor
  · intro r hr
    have inPool := (inv.kept r hr).inPool
    have pool := p.block_limit
    simp only [UsbRegion.stop, UsbPool.block, usbMemBlockSize] at pool ⊢
    omega
  · intro r hr
    have offset := usbMhdrSize_le_dataOffset r.boundary
    exact Nat.add_le_add_left offset _
  · intro r hr
    exact ⟨(inv.kept r hr).wantedNonneg, (inv.kept r hr).large⟩
  · apply inv.apart.imp
    intro r q sides
    simp only [UsbRegion.Apart, UsbRegion.stop, UsbPool.block, usbMemBlockSize] at sides ⊢
    omega
  · intro r hr wide
    exact Nat.dvd_of_mod_eq_zero ((inv.kept r hr).onBoundary wide)
  · intro r hr narrow
    obtain ⟨m, base⟩ := p.aligned
    have offset : usbDataOffset r.boundary = usbMhdrSize := if_neg (not_lt.mpr narrow)
    simp only [UsbRegion.ptr, UsbPool.block, offset, base, usbMemBlockSize, usbMhdrSize]
    omega
  · exact inv.total
  · exact inv.free
  · intro rs order
    have empty := usbFree_all inv order
    have free := empty.free
    have total := empty.total
    rw [freeBlocks_nil] at free
    simp only [usbBlockNum, usbMemoryPoolSize, usbMemBlockSize] at free total ⊢
    omega

def usbPoolAt : UsbPool := ⟨0x40000000, by decide, by decide⟩

def afterRequest (wanted boundary : BitVec 32) : UsbRun :=
  let start := usbInitializeMemoryPool usbPoolAt fun _ => 0
  match usbMalloc usbPoolAt 8 start wanted boundary with
  | some (h, ptr) => ⟨h, [usbRegionAt usbPoolAt h.mem ptr wanted boundary]⟩
  | none => ⟨start, []⟩

theorem afterRequest_reachable {wanted boundary : BitVec 32} {ptr : Nat}
    (given : (usbMalloc usbPoolAt 8 (usbInitializeMemoryPool usbPoolAt fun _ => 0) wanted boundary).map
      Prod.snd = some ptr) (some : ptr ≠ 0) :
    UsbReachable usbPoolAt (afterRequest wanted boundary) ∧
      ∃ h, (afterRequest wanted boundary).live =
        [usbRegionAt usbPoolAt h ptr wanted boundary] := by
  unfold afterRequest
  cases result : usbMalloc usbPoolAt 8 (usbInitializeMemoryPool usbPoolAt fun _ => 0) wanted boundary with
  | none =>
    rw [result] at given
    cases given
  | some out =>
    obtain ⟨h, q⟩ := out
    rw [result] at given
    cases given
    simp only [result]
    exact ⟨⟨fun _ => 0, .tail .refl (.malloc result some)⟩, h.mem, rfl⟩

/-- A hundred bytes at a multiple of 32: the region is sound, and giving it back restores the pool. -/
theorem usb_heap_sound_hundred : UsbSound usbPoolAt (afterRequest 100 32) := by
  have given : (usbMalloc usbPoolAt 8 (usbInitializeMemoryPool usbPoolAt fun _ => 0) 100 32).map
      Prod.snd = some 0x40000080 := by decide
  exact usb_heap_sound (afterRequest_reachable given (by decide)).1

theorem boundary_three_missed : ∃ s, UsbReachable usbPoolAt s ∧
    ∃ r ∈ s.live, r.boundary = 3 ∧ ¬r.boundary.toNat ∣ r.ptr usbPoolAt := by
  have given : (usbMalloc usbPoolAt 8 (usbInitializeMemoryPool usbPoolAt fun _ => 0) 1 3).map
      Prod.snd = some 0x40000010 := by decide
  obtain ⟨reach, h, live⟩ := afterRequest_reachable given (by decide)
  have ptr : (usbRegionAt usbPoolAt h 0x40000010 1 3).ptr usbPoolAt = 0x40000010 := rfl
  refine ⟨_, reach, _, by rw [live]; exact List.mem_cons_self, rfl, ?_⟩
  rw [ptr]
  change ¬3 ∣ 0x40000010
  decide

end NuMakerMA35
