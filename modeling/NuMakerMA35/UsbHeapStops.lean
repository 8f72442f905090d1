import NuMakerMA35.UsbHeapSound

namespace NuMakerMA35

open Words

variable {p : UsbPool} {h : UsbHeap} {live : List UsbRegion} {wanted boundary : BitVec 32}

def UsbFits (p : UsbPool) (live : List UsbRegion) (wanted boundary : BitVec 32) : Prop :=
  ∃ f k size, FreeRun p live boundary f k size ∧ wanted.toInt ≤ size

section Inside

/-- Where the rover of a search from block `first` is: not yet behind the end, or before the start. -/
def Underway (first : Nat) (st : UsbSearch) (c : Nat) : Prop :=
  (st.wrap = false ∧ first ≤ c) ∨ (st.wrap = true ∧ c < first)

def blocksLeft (first : Nat) (st : UsbSearch) (c : Nat) : Nat :=
  if st.wrap = true then first - c else usbBlockNum - c + first

theorem blocksLeft_pos {first : Nat} {st : UsbSearch} {c : Nat} (under : Underway first st c)
    (inside : c < usbBlockNum) : 0 < blocksLeft first st c := by
  unfold blocksLeft
  rcases under with ⟨no, -⟩ | ⟨yes, low⟩
  · simp only [no, Bool.false_eq_true, if_false]
    omega
  · simp only [yes, if_true]
    omega

@[simp] theorem UsbSearch.gather_wrap (st : UsbSearch) (c : Nat) :
    (st.gather p boundary c).wrap = st.wrap := by
  unfold UsbSearch.gather
  split_ifs <;> rfl

theorem blocksLeft_moveTo {first : Nat} {st st' : UsbSearch} {c c' : Nat} (under : Underway first st c)
    (wrap : st'.wrap = st.wrap) (on : c < c') (most : c' ≤ usbBlockNum) (start : first < usbBlockNum)
    (stops : c < first → c' ≤ first) :
    let next := if c' = usbBlockNum then 0 else c'
    (Underway first (st'.moveTo p c') next ∧
        blocksLeft first (st'.moveTo p c') next < blocksLeft first st c) ∨
      ((st'.moveTo p c').wrap = true ∧ first ≤ next) := by
  unfold Underway blocksLeft UsbSearch.moveTo at *
  rcases under with ⟨no, low⟩ | ⟨yes, low⟩
  · split_ifs <;> simp_all <;> omega
  · split_ifs <;> simp_all <;> omega

theorem usbSearchLoop_stops (inv : UsbInv p h live) {first : Nat} (at_first : AtBoundary live first)
    (start : first < usbBlockNum) (turns : Nat) : ∀ {st : UsbSearch} {c : Nat},
      SearchInv p live boundary st c → Underway first st c → blocksLeft first st c ≤ turns →
      ∃ out, usbSearchLoop p h.mem wanted boundary (p.block first) turns st = some out := by
  induction turns with
  | zero =>
    intro st c search under left
    have some := blocksLeft_pos under search.inside
    omega
  | succ n ih =>
    intro st c search under left
    -- the rover goes on to block `c'`
    have further {st' : UsbSearch} {c' : Nat} (turn : usbTurn p h.mem wanted boundary st =
        .next (st'.moveTo p c')) (wrap : st'.wrap = st.wrap) (on : c < c') (at_c : AtBoundary live c')
        (run : st'.found ≠ -1 → ∃ f, st'.pFound = p.block f ∧ f + st'.blockCount = c' ∧
          FreeRun p live boundary f st'.blockCount st'.found)
        (stops : c < first → c' ≤ first) :
        ∃ out, usbSearchLoop p h.mem wanted boundary (p.block first) (n + 1) st = some out := by
      have moved := SearchInv.moveTo at_c run
      rw [usbSearchLoop, turn]
      simp only
      split_ifs with again
      · rcases blocksLeft_moveTo (p := p) under wrap on at_c.1 start stops with ⟨goes, fewer⟩ | ⟨yes, beyond⟩
        · exact ih moved goes (by omega)
        · rw [yes, moved.cur] at again
          simp only [Bool.true_eq_false, false_or, UsbPool.block, usbMemBlockSize] at again
          omega
      · exact ⟨_, rfl⟩
    rcases @usbTurn_inv p h live inv wanted boundary st c search with ⟨r, hr, same, turn⟩ | ⟨free, turn⟩
    · have behind := AtBoundary.stop inv hr
      have some := (inv.kept r hr).some
      rw [same] at behind
      refine further turn rfl (by omega) behind (fun some => absurd rfl some) ?_
      intro before
      rw [← same]
      exact at_first.2 r hr (by omega)
    · by_cases large : wanted.toInt ≤ (st.gather p boundary c).found
      · rw [usbSearchLoop, turn, if_pos large]
        exact ⟨_, rfl⟩
      · rw [if_neg large] at turn
        exact further turn (by simp) (Nat.lt_succ_self c) (.next free search.inside)
          (search.gather_run free) id

end Inside

section AtEnd

theorem usbDataOffset_le (boundary : BitVec 32) : usbDataOffset boundary ≤ usbMemBlockSize := by
  unfold usbDataOffset
  split_ifs <;> decide

theorem FreeRun.leads {f k : Nat} {size : Int} (run : FreeRun p live boundary f k size) :
    usbLeading p boundary (p.block f) ≠ -1 := by
  have some := run.some
  have inPool := run.inPool
  have next : ptrAdd (p.block f) usbMemBlockSize = p.block (f + 1) := by
    have add := p.ptrAdd_block (b := f) (n := 1) (by omega)
    simpa using add
  unfold usbLeading
  split_ifs with wide violates
  · obtain ⟨inside, multiple⟩ := run.onBoundary wide
    rw [next, p.limit_le_block_iff] at violates
    omega
  · decide
  · decide

/-- The rover has not passed the run, and inside it a run that began no later is being gathered. -/
def Ahead (f k : Nat) (st : UsbSearch) (c : Nat) : Prop :=
  c < f + k ∧ (f < c → st.found ≠ -1 ∧ c ≤ f + st.blockCount)

theorem Ahead.step (inv : UsbInv p h live) {f k : Nat} {size : Int}
    (run : FreeRun p live boundary f k size) (large : wanted.toInt ≤ size) {st : UsbSearch} {c : Nat}
    (search : SearchInv p live boundary st c) (ahead : Ahead f k st c) :
    (∃ pFound blockCount, usbTurn p h.mem wanted boundary st = .hit pFound blockCount) ∨
    ∃ st' c', usbTurn p h.mem wanted boundary st = .next st' ∧ SearchInv p live boundary st' c' ∧
      st'.wrap = st.wrap ∧ Ahead f k st' c' ∧ c < c' := by
  have inPool := run.inPool
  rcases @usbTurn_inv p h live inv wanted boundary st c search with ⟨r, hr, same, turn⟩ | ⟨free, turn⟩
  · -- a region lies before the run
    right
    have kept := inv.kept r hr
    have some := kept.some
    have apart : r.head + r.count ≤ f := by
      by_contra beyond
      have before := ahead.1
      have blocks := run.some
      apply run.free (max c f) (le_max_right _ _) (by omega) r hr
      unfold UsbRegion.Covers
      omega
    have inside : c + r.count ≠ usbBlockNum := by
      have blocks := run.some
      omega
    have behind := AtBoundary.stop inv hr
    rw [same] at behind apart
    have moved := SearchInv.skip (p := p) boundary st behind
    rw [if_neg inside] at moved
    have goes : ({ st with found := -1 }.moveTo p (c + r.count)).wrap = st.wrap := by
      rw [UsbSearch.moveTo, if_neg inside]
    exact ⟨_, _, turn, moved, goes, ⟨by have := run.some; omega, fun beyond => by omega⟩, by omega⟩
  · by_cases answered : wanted.toInt ≤ (st.gather p boundary c).found
    · left
      exact ⟨_, _, by rw [turn, if_pos answered]⟩
    · right
      -- the run gathered is longer than what is left of the run that fits
      have longer : f ≤ c → (st.gather p boundary c).found ≠ -1 ∧
          c + 1 ≤ f + (st.gather p boundary c).blockCount := by
        intro low
        unfold UsbSearch.gather
        by_cases leading : st.found = -1
        · have first : c = f := by
            by_contra other
            exact (ahead.2 (by omega)).1 leading
          rw [if_pos leading, first]
          exact ⟨run.leads, by simp⟩
        · obtain ⟨_, -, -, begun⟩ := search.run leading
          have blocks := begun.some
          have offset := begun.size
          rw [if_neg leading]
          refine ⟨?_, ?_⟩
          · have := usbDataOffset_le boundary
            simp only [usbMemBlockSize] at *
            omega
          · by_cases later : f < c
            · have := (ahead.2 later).2
              simp only
              omega
            · simp only
              omega
      have inside : c + 1 < f + k := by
        by_contra last
        have before := ahead.1
        have blocks := run.some
        obtain ⟨found, most⟩ := longer (by omega)
        obtain ⟨_, -, -, gathered⟩ := search.gather_run free found
        have size := gathered.size
        have asked := run.size
        have more : k * usbMemBlockSize ≤ (st.gather p boundary c).blockCount * usbMemBlockSize :=
          Nat.mul_le_mul_right _ (by omega)
        omega
      have notEnd : c + 1 ≠ usbBlockNum := by omega
      have moved := SearchInv.moveTo (AtBoundary.next free search.inside) (search.gather_run free)
      rw [if_neg notEnd] at moved
      rw [if_neg answered] at turn
      have goes : ((st.gather p boundary c).moveTo p (c + 1)).wrap = st.wrap := by
        rw [UsbSearch.moveTo, if_neg notEnd, UsbSearch.gather_wrap]
      refine ⟨_, _, turn, moved, goes, ⟨inside, fun beyond => ?_⟩, Nat.lt_succ_self c⟩
      rw [UsbSearch.moveTo, if_neg notEnd]
      exact longer (by omega)

theorem usbSearchLoop_finds (inv : UsbInv p h live) {f k : Nat} {size : Int}
    (run : FreeRun p live boundary f k size) (large : wanted.toInt ≤ size) (primitive turns : Nat) :
    ∀ {st : UsbSearch} {c : Nat}, SearchInv p live boundary st c → st.wrap = false → Ahead f k st c →
      f + k - c ≤ turns →
      ∃ out, usbSearchLoop p h.mem wanted boundary primitive turns st = some out := by
  induction turns with
  | zero =>
    intro st c search _ ahead left
    have before := ahead.1
    omega
  | succ n ih =>
    intro st c search wrap ahead left
    rw [usbSearchLoop]
    rcases ahead.step inv run large search with ⟨_, _, turn⟩ | ⟨st', c', turn, moved, goes, ahead', on⟩
    · rw [turn]
      exact ⟨_, rfl⟩
    · rw [turn]
      simp only [goes, wrap, true_or, if_true]
      exact ih moved (goes.trans wrap) ahead' (by omega)

theorem usbSearchLoop_hangs (inv : UsbInv p h live) (asked : 0 ≤ wanted.toInt)
    (none : ¬UsbFits p live wanted boundary) (turns : Nat) :
    ∀ {st : UsbSearch} {c : Nat}, SearchInv p live boundary st c →
      usbSearchLoop p h.mem wanted boundary p.limit turns st = .none := by
  induction turns with
  | zero => exact fun _ => rfl
  | succ n ih =>
    intro st c search
    rw [usbSearchLoop]
    rcases usbTurn_cases inv asked search with ⟨st', c', turn, moved⟩ | ⟨f, k, size, -, run, large⟩
    · have inside : st'.cur < p.limit := by
        rw [moved.cur, ← not_le, p.limit_le_block_iff, not_le]
        exact moved.inside
      rw [turn]
      simp only [inside, or_true, if_true]
      exact ih moved
    · exact absurd ⟨f, k, size, run, large⟩ none

end AtEnd

section Calls

/-- The pointer lies outside the pool or behind no header, or its header is a free block. -/
def UsbStray (p : UsbPool) (live : List UsbRegion) (addr : Nat) : Prop :=
  (addr < p.base ∨ p.limit ≤ addr) ∨ usbHeaderOf addr % usbMemBlockSize ≠ 0 ∨
    ∃ b < usbBlockNum, usbHeaderOf addr = p.block b ∧ Uncovered live b

theorem usbFree_stray (inv : UsbInv p h live) {addr : Nat} (stray : UsbStray p live addr) :
    usbFree p h addr = h := by
  unfold usbFree
  rcases stray with outside | astray | ⟨b, inside, header, free⟩
  · rw [if_pos outside]
  · split_ifs
    · rfl
    · simp only [astray, ne_eq, not_false_eq_true, if_true]
  · have flag := inv.unflagged b inside free
    rw [← header] at flag
    split_ifs
    · rfl
    · simp only [flag, if_true]
      split_ifs <;> rfl

@[simp] theorem usbFree_pCurrent (h : UsbHeap) (addr : Nat) : (usbFree p h addr).pCurrent = h.pCurrent := by
  unfold usbFree
  dsimp only
  split_ifs <;> rfl

/-- Calls with any arguments, but for pointers into the inside of a live region. -/
inductive UsbCall (p : UsbPool) : UsbRun → UsbRun → Prop where
  | own {s t : UsbRun} : UsbStep p s t → UsbCall p s t
  | stray {s : UsbRun} {addr : Nat} : UsbStray p s.live addr →
    UsbCall p s ⟨usbFree p s.heap addr, s.live⟩

def UsbCalled (p : UsbPool) (s : UsbRun) : Prop :=
  ∃ mem, Relation.ReflTransGen (UsbCall p) ⟨usbInitializeMemoryPool p mem, []⟩ s

theorem usbCalled_inv {s : UsbRun} (called : UsbCalled p s) : UsbInv p s.heap s.live := by
  obtain ⟨mem, run⟩ := called
  induction run with
  | refl => exact .init p mem
  | tail _ last ih =>
    cases last with
    | own step => exact ih.step step
    | stray astray =>
      rw [usbFree_stray ih astray]
      exact ih

theorem usbCalled_of_reachable {s : UsbRun} (reach : UsbReachable p s) : UsbCalled p s := by
  obtain ⟨mem, run⟩ := reach
  exact ⟨mem, Relation.ReflTransGen.mono (fun _ _ => .own) _ _ run⟩

/-- The last allocation ended at the end of the pool, and the request is smaller than the free
amount, but fits into no run of free blocks. -/
def UsbStuck (p : UsbPool) (s : UsbRun) (wanted boundary : BitVec 32) : Prop :=
  ¬s.heap.freeMemorySize ≤ wanted ∧ s.heap.pCurrent = p.limit ∧ ¬UsbFits p s.live wanted boundary

theorem usbMalloc_eq_none_iff {turns : Nat} (asked : ¬h.freeMemorySize ≤ wanted) :
    usbMalloc p turns h wanted boundary = none ↔
      usbSearchLoop p h.mem wanted boundary h.pCurrent turns
        ⟨if p.limit ≤ h.pCurrent then p.base else h.pCurrent, -1, 0, 0, false⟩ = none := by
  rw [usbMalloc, if_neg asked]
  simp only
  generalize usbSearchLoop p h.mem wanted boundary h.pCurrent turns _ = out
  rcases out with _ | ⟨_ | ⟨_, _⟩, _⟩ <;> simp

theorem usbMalloc_stuck {s : UsbRun} (inv : UsbInv p s.heap s.live)
    (stuck : UsbStuck p s wanted boundary) (turns : Nat) :
    usbMalloc p turns s.heap wanted boundary = none := by
  obtain ⟨refused, rover, none⟩ := stuck
  have begin : SearchInv p s.live boundary ⟨p.base, -1, 0, 0, false⟩ 0 :=
    .restart (block_zero p).symm (by decide) (.zero s.live) rfl
  have hangs := usbSearchLoop_hangs inv (inv.asked refused) none turns begin
  rw [usbMalloc_eq_none_iff refused, rover, if_pos le_rfl]
  exact hangs

theorem usbMalloc_returns {s : UsbRun} (called : UsbCalled p s)
    (free : ¬UsbStuck p s wanted boundary) :
    ∃ out, usbMalloc p usbBlockNum s.heap wanted boundary = some out := by
  have inv := usbCalled_inv called
  by_cases refused : s.heap.freeMemorySize ≤ wanted
  · exact ⟨_, by rw [usbMalloc, if_pos refused]⟩
  · rw [← Option.ne_none_iff_exists', ne_eq, usbMalloc_eq_none_iff refused, ← ne_eq,
      Option.ne_none_iff_exists']
    obtain ⟨c, rover, at_c⟩ := inv.rover
    by_cases atEnd : c = usbBlockNum
    · rw [atEnd, p.block_limit] at rover
      have fits : UsbFits p s.live wanted boundary := by
        by_contra none
        exact free ⟨refused, rover, none⟩
      obtain ⟨f, k, size, run, large⟩ := fits
      have inPool := run.inPool
      have blocks := run.some
      rw [rover, if_pos le_rfl]
      exact usbSearchLoop_finds inv run large p.limit usbBlockNum
        (.restart (block_zero p).symm (by decide) (.zero s.live) rfl) rfl
        ⟨by omega, fun beyond => absurd beyond (Nat.not_lt_zero f)⟩ (by omega)
    · have inside : c < usbBlockNum := lt_of_le_of_ne at_c.1 atEnd
      rw [rover, if_neg (by rw [p.limit_le_block_iff]; omega)]
      exact usbSearchLoop_stops inv at_c inside usbBlockNum (.restart rfl inside at_c rfl)
        (.inl ⟨rfl, le_rfl⟩) (by simp only [blocksLeft, Bool.false_eq_true, if_false]; omega)

/-- `USB_malloc` looks at no more blocks than the pool has, unless it is stuck. -/
theorem usb_malloc_returns_iff {s : UsbRun} (called : UsbCalled p s) (wanted boundary : BitVec 32) :
    ((∃ turns out, usbMalloc p turns s.heap wanted boundary = some out) ↔
      ¬UsbStuck p s wanted boundary) ∧
    (¬UsbStuck p s wanted boundary → ∃ out, usbMalloc p usbBlockNum s.heap wanted boundary = some out) := by
  refine ⟨⟨?_, fun free => ⟨_, usbMalloc_returns called free⟩⟩, usbMalloc_returns called⟩
  rintro ⟨turns, out, returned⟩ stuck
  rw [usbMalloc_stuck (usbCalled_inv called) stuck turns] at returned
  cases returned

theorem usb_malloc_returns_fresh :
    ∃ out, usbMalloc usbPoolAt usbBlockNum (usbInitializeMemoryPool usbPoolAt fun _ => 0) 100 32 =
      some out := by
  refine (usb_malloc_returns_iff (s := ⟨usbInitializeMemoryPool usbPoolAt fun _ => 0, []⟩) ⟨_, .refl⟩
    100 32).2 ?_
  rintro ⟨-, rover, -⟩
  exact absurd rover (by decide)

/-- All but the header of the pool is handed out and given back; then eight bytes more are asked for. -/
theorem usb_malloc_hangs : ∃ s, UsbCalled usbPoolAt s ∧ s.live = [] ∧
    ∀ turns, usbMalloc usbPoolAt turns s.heap 32760 4 = none := by
  have given : (usbMalloc usbPoolAt 256 (usbInitializeMemoryPool usbPoolAt fun _ => 0) 32752 4).map
      (fun out => (out.2, out.1.pCurrent)) = some (0x40000010, 0x40008000) := by decide +kernel
  cases result : usbMalloc usbPoolAt 256 (usbInitializeMemoryPool usbPoolAt fun _ => 0) 32752 4 with
  | none =>
    rw [result] at given
    cases given
  | some out =>
    obtain ⟨h, ptr⟩ := out
    rw [result] at given
    obtain ⟨rfl, rover⟩ := Prod.mk.inj (Option.some.inj given)
    have first : UsbStep usbPoolAt ⟨usbInitializeMemoryPool usbPoolAt fun _ => 0, []⟩
        ⟨h, [usbRegionAt usbPoolAt h.mem 0x40000010 32752 4]⟩ := .malloc result (by decide)
    generalize usbRegionAt usbPoolAt h.mem 0x40000010 32752 4 = r at first
    have second : UsbStep usbPoolAt ⟨h, [r]⟩ ⟨usbFree usbPoolAt h (r.ptr usbPoolAt), [r].erase r⟩ :=
      .free (List.mem_singleton.mpr rfl)
    rw [List.erase_cons_head] at second
    have called := usbCalled_of_reachable ⟨fun _ => 0, .tail (.tail .refl first) second⟩
    refine ⟨_, called, rfl, ?_⟩
    intro turns
    have inv := usbCalled_inv called
    have free := inv.free
    rw [freeBlocks_nil] at free
    have stuck : UsbStuck usbPoolAt ⟨usbFree usbPoolAt h (r.ptr usbPoolAt), []⟩ 32760 4 := by
      refine ⟨?_, ?_, ?_⟩
      · rw [BitVec.le_def, free]
        decide
      · rw [usbFree_pCurrent]
        exact rover
      · rintro ⟨f, k, size, run, large⟩
        have inPool := run.inPool
        have amount := run.size
        have narrow : usbDataOffset 4 = 16 := by decide
        rw [narrow] at amount
        simp only [usbBlockNum, usbMemBlockSize, usbMemoryPoolSize] at inPool amount
        have asked : (32760 : BitVec 32).toInt = 32760 := by decide
        omega
    exact usbMalloc_stuck inv stuck turns

end Calls

end NuMakerMA35
