import NuMakerMA35.UsbHeapStops

namespace NuMakerMA35

open Words

variable {p : UsbPool} {h : UsbHeap} {live : List UsbRegion} {wanted boundary : BitVec 32}

/-- A run that answers the request and lies wholly before the rover or wholly from it on. -/
def UsbPlaced (p : UsbPool) (s : UsbRun) (wanted boundary : BitVec 32) : Prop :=
  ∃ f k size, FreeRun p s.live boundary f k size ∧ wanted.toInt ≤ size ∧
    (p.block (f + k) ≤ s.heap.pCurrent ∨ s.heap.pCurrent ≤ p.block f)

section Misses

theorem block_le_iff {b c : Nat} : p.block b ≤ p.block c ↔ b ≤ c := by
  unfold UsbPool.block usbMemBlockSize
  omega

theorem block_lt_iff {b c : Nat} : p.block b < p.block c ↔ b < c := by
  unfold UsbPool.block usbMemBlockSize
  omega

/-- The search from block `first` has not come past the run, which lies on one side of it. -/
def Pending (first f k : Nat) (st : UsbSearch) (c : Nat) : Prop :=
  (Ahead f k st c ∧ (st.wrap = false ∨ f + k ≤ first)) ∨
    (st.wrap = false ∧ first ≤ c ∧ f + k ≤ first)

theorem usbSearchLoop_not_missed (inv : UsbInv p h live) {first f k : Nat} {size : Int}
    (run : FreeRun p live boundary f k size) (large : wanted.toInt ≤ size) (turns cur : Nat) :
    ∀ {st : UsbSearch} {c : Nat}, SearchInv p live boundary st c → Pending first f k st c →
      usbSearchLoop p h.mem wanted boundary (p.block first) turns st ≠ some (none, cur) := by
  have blocks := run.some
  have inPool := run.inPool
  induction turns with
  | zero =>
    intro st c _ _ missed
    cases missed
  | succ n ih =>
    intro st c search pending missed
    rw [usbSearchLoop] at missed
    -- the loop goes on where the run is still pending
    have further {st' : UsbSearch} {c' : Nat} (turn : usbTurn p h.mem wanted boundary st = .next st')
        (moved : SearchInv p live boundary st' c') (again : st'.wrap = false ∨ c' < first)
        (pending' : Pending first f k st' c') : False := by
      have more : st'.wrap = false ∨ st'.cur < p.block first := by
        refine again.imp_right fun low => ?_
        rw [moved.cur, block_lt_iff]
        exact low
      rw [turn] at missed
      simp only [more, if_true] at missed
      exact ih moved pending' missed
    rcases pending with ⟨ahead, side⟩ | ⟨wrap, beyond, before⟩
    · rcases ahead.step inv run large search with ⟨_, _, turn⟩ | ⟨st', c', turn, moved, goes, ahead', -⟩
      · rw [turn] at missed
        cases missed
      · have inside := ahead'.1
        rw [← goes] at side
        exact further turn moved (side.imp_right fun low => by omega) (Or.inl ⟨ahead', side⟩)
    · -- the rover comes to the end before it comes to the run
      have around {st' : UsbSearch} {c' : Nat} (turn : usbTurn p h.mem wanted boundary st =
          .next (st'.moveTo p c')) (same : st'.wrap = false) (on : c < c') (at_c : AtBoundary live c')
          (gathered : st'.found ≠ -1 → ∃ f, st'.pFound = p.block f ∧ f + st'.blockCount = c' ∧
            FreeRun p live boundary f st'.blockCount st'.found) : False := by
        have moved := SearchInv.moveTo at_c gathered
        by_cases atEnd : c' = usbBlockNum
        · rw [if_pos atEnd] at moved
          refine further turn moved (Or.inr (by omega)) (Or.inl ⟨⟨by omega, ?_⟩, Or.inr before⟩)
          exact fun late => absurd late (Nat.not_lt_zero f)
        · rw [if_neg atEnd] at moved
          have goes : (st'.moveTo p c').wrap = false := by
            rw [UsbSearch.moveTo, if_neg atEnd]
            exact same
          exact further turn moved (Or.inl goes) (Or.inr ⟨goes, by omega, before⟩)
      rcases @usbTurn_inv p h live inv wanted boundary st c search with ⟨r, hr, same, turn⟩ | ⟨free, turn⟩
      · have behind := AtBoundary.stop inv hr
        have some := (inv.kept r hr).some
        rw [same] at behind
        exact around turn wrap (by omega) behind fun some => absurd rfl some
      · by_cases answered : wanted.toInt ≤ (st.gather p boundary c).found
        · rw [turn, if_pos answered] at missed
          cases missed
        · rw [if_neg answered] at turn
          exact around turn (by rw [UsbSearch.gather_wrap, wrap]) (Nat.lt_succ_self c)
            (AtBoundary.next free search.inside) (search.gather_run free)

end Misses

section Finds

def BegunFrom (p : UsbPool) (first : Nat) (st : UsbSearch) : Prop :=
  st.found ≠ -1 → st.wrap = false → p.block first ≤ st.pFound

theorem BegunFrom.gather {first c : Nat} {st : UsbSearch} (begun : BegunFrom p first st)
    (under : Underway first st c) : BegunFrom p first (st.gather p boundary c) := by
  intro some wrap
  rw [UsbSearch.gather_wrap] at wrap
  unfold UsbSearch.gather
  split_ifs with leading
  · rcases under with ⟨-, low⟩ | ⟨yes, -⟩
    · exact Nat.add_le_add_left (Nat.mul_le_mul_right _ low) _
    · rw [wrap] at yes
      cases yes
  · exact begun leading wrap

theorem BegunFrom.moveTo {first c : Nat} {st : UsbSearch} (begun : BegunFrom p first st) :
    BegunFrom p first (st.moveTo p c) := by
  unfold UsbSearch.moveTo
  split_ifs
  · exact fun some => absurd rfl some
  · exact begun

theorem usbSearchLoop_placed (inv : UsbInv p h live) (asked : 0 ≤ wanted.toInt) {first : Nat}
    (turns : Nat) {pFound k cur : Nat} : ∀ {st : UsbSearch} {c : Nat},
      SearchInv p live boundary st c → Underway first st c → BegunFrom p first st →
      usbSearchLoop p h.mem wanted boundary (p.block first) turns st = some (some (pFound, k), cur) →
      ∃ f size, pFound = p.block f ∧ FreeRun p live boundary f k size ∧ wanted.toInt ≤ size ∧
        (first ≤ f ∨ f + k ≤ first) := by
  induction turns with
  | zero =>
    intro st c _ _ _ result
    cases result
  | succ n ih =>
    intro st c search under begun result
    rw [usbSearchLoop] at result
    have further {st' : UsbSearch} {c' : Nat} (turn : usbTurn p h.mem wanted boundary st =
        .next (st'.moveTo p c')) (wrap : st'.wrap = st.wrap) (on : c < c') (at_c : AtBoundary live c')
        (gathered : st'.found ≠ -1 → ∃ f, st'.pFound = p.block f ∧ f + st'.blockCount = c' ∧
          FreeRun p live boundary f st'.blockCount st'.found) (begun' : BegunFrom p first st') :
        ∃ f size, pFound = p.block f ∧ FreeRun p live boundary f k size ∧ wanted.toInt ≤ size ∧
          (first ≤ f ∨ f + k ≤ first) := by
      have moved := SearchInv.moveTo at_c gathered
      rw [turn] at result
      simp only at result
      split_ifs at result with again
      · refine ih moved ?_ begun'.moveTo result
        rw [moved.cur, block_lt_iff] at again
        unfold Underway at under ⊢
        unfold UsbSearch.moveTo at again ⊢
        split_ifs at again ⊢ with atEnd
        · exact Or.inr ⟨rfl, by simpa using again⟩
        · rw [wrap] at again ⊢
          rcases under with ⟨no, low⟩ | ⟨yes, low⟩
          · exact Or.inl ⟨no, by omega⟩
          · exact Or.inr ⟨yes, by simpa [yes] using again⟩
      · cases result
    rcases @usbTurn_inv p h live inv wanted boundary st c search with ⟨r, hr, same, turn⟩ | ⟨free, turn⟩
    · have behind := AtBoundary.stop inv hr
      have some := (inv.kept r hr).some
      rw [same] at behind
      exact further turn rfl (by omega) behind (fun some => absurd rfl some) fun some => absurd rfl some
    · by_cases large : wanted.toInt ≤ (st.gather p boundary c).found
      · rw [turn, if_pos large] at result
        cases result
        have some : (st.gather p boundary c).found ≠ -1 := by omega
        obtain ⟨f, found, length, run⟩ := search.gather_run free some
        refine ⟨f, _, found, run, large, ?_⟩
        rcases under with ⟨no, low⟩ | ⟨yes, low⟩
        · left
          have early := @BegunFrom.gather p boundary first c st begun (Or.inl ⟨no, low⟩) some
            (by rw [UsbSearch.gather_wrap, no])
          rwa [found, block_le_iff] at early
        · right
          omega
      · rw [if_neg large] at turn
        exact further turn (by simp) (Nat.lt_succ_self c) (.next free search.inside)
          (search.gather_run free) (begun.gather under)

end Finds

section Calls

theorem ptrAdd_offset_ne_zero {f : Nat} (inside : f < usbBlockNum) {n : Nat} (some : 0 < n)
    (small : n ≤ usbMemBlockSize) : ptrAdd (p.block f) n ≠ 0 := by
  have fits := p.fits
  unfold ptrAdd UsbPool.block
  unfold usbBlockNum at inside
  simp only [usbMemBlockSize, usbMemoryPoolSize] at *
  omega

theorem usbMalloc_null {turns : Nat} {h' : UsbHeap} (inv : UsbInv p h live)
    (null : usbMalloc p turns h wanted boundary = some (h', 0)) :
    h.freeMemorySize ≤ wanted ∨
      ∃ cur, usbSearchLoop p h.mem wanted boundary h.pCurrent turns
        ⟨if p.limit ≤ h.pCurrent then p.base else h.pCurrent, -1, 0, 0, false⟩ = some (none, cur) := by
  by_cases refused : h.freeMemorySize ≤ wanted
  · exact Or.inl refused
  · right
    obtain ⟨c, begin⟩ := inv.begin boundary
    rw [usbMalloc, if_neg refused] at null
    dsimp only at null
    generalize (if p.limit ≤ h.pCurrent then p.base else h.pCurrent) = start at begin null ⊢
    cases search : usbSearchLoop p h.mem wanted boundary h.pCurrent turns ⟨start, -1, 0, 0, false⟩ with
    | none =>
      rw [search] at null
      cases null
    | some out =>
      obtain ⟨found, cur⟩ := out
      rcases usbSearchLoop_cases inv (inv.asked refused) h.pCurrent turns begin search with
        ⟨rfl, -⟩ | ⟨f, k, size, rfl, run, -⟩
      · exact ⟨cur, rfl⟩
      · have inside : f < usbBlockNum := by
          have inPool := run.inPool
          have blocks := run.some
          omega
        rw [search] at null
        have result := congrArg Prod.snd (Option.some.inj null)
        dsimp only at result
        split_ifs at result
        · exact absurd result (ptrAdd_offset_ne_zero inside (by decide) le_rfl)
        · exact absurd result (ptrAdd_offset_ne_zero inside (by decide) (by decide))

theorem FreeRun.lt_free (inv : UsbInv p h live) {f k : Nat} {size : Int}
    (run : FreeRun p live boundary f k size) (large : wanted.toInt ≤ size) (asked : 0 ≤ wanted.toInt) :
    ¬h.freeMemorySize ≤ wanted := by
  have inPool := run.inPool
  have amount := run.size
  have offset := usbMhdrSize_le_dataOffset boundary
  have blocks : (Finset.Ico f (f + k)).card ≤ (freeBlocks live).card := by
    apply Finset.card_le_card
    intro b here
    obtain ⟨low, high⟩ := Finset.mem_Ico.mp here
    exact Finset.mem_filter.mpr ⟨Finset.mem_range.mpr (by omega), run.free b low high⟩
  rw [Nat.card_Ico] at blocks
  have free := inv.free
  rw [BitVec.le_def, free, not_le]
  have value : (wanted.toNat : Int) = wanted.toInt := by
    rw [BitVec.toInt_eq_toNat_cond] at asked ⊢
    split_ifs at asked ⊢ <;> omega
  simp only [usbMemBlockSize, usbMhdrSize] at *
  omega

theorem usbMalloc_misses {s : UsbRun} (called : UsbCalled p s) (asked : 0 ≤ wanted.toInt)
    (fits : UsbFits p s.live wanted boundary) (none : ¬UsbPlaced p s wanted boundary) :
    ∃ h, usbMalloc p usbBlockNum s.heap wanted boundary = some (h, 0) := by
  have inv := usbCalled_inv called
  obtain ⟨first, rover, at_first⟩ := inv.rover
  have inside : first < usbBlockNum := by
    by_contra atEnd
    obtain ⟨f, k, size, run, large⟩ := fits
    refine none ⟨f, k, size, run, large, Or.inl ?_⟩
    rw [rover, block_le_iff]
    have inPool := run.inPool
    omega
  obtain ⟨f, k, size, run, large⟩ := fits
  have more := run.lt_free inv large asked
  have stuck : ¬UsbStuck p s wanted boundary := by
    rintro ⟨-, atEnd, -⟩
    rw [rover, p.block_eq_limit_iff] at atEnd
    omega
  obtain ⟨⟨h, ptr⟩, returned⟩ := usbMalloc_returns called stuck
  have begin : SearchInv p s.live boundary ⟨p.block first, -1, 0, 0, false⟩ first :=
    .restart rfl inside at_first rfl
  have start : ¬p.limit ≤ p.block first := by
    rw [p.limit_le_block_iff]
    omega
  have unfolded := returned
  rw [usbMalloc, if_neg more, rover, if_neg start] at unfolded
  dsimp only at unfolded
  cases search : usbSearchLoop p s.heap.mem wanted boundary (p.block first) usbBlockNum
      ⟨p.block first, -1, 0, 0, false⟩ with
  | none =>
    rw [search] at unfolded
    cases unfolded
  | some found =>
    obtain ⟨_ | ⟨pFound, count⟩, cur⟩ := found
    · rw [search] at unfolded
      obtain ⟨rfl, rfl⟩ := Prod.mk.inj (Option.some.inj unfolded)
      exact ⟨_, returned⟩
    · obtain ⟨g, size, -, placed, enough, side⟩ := usbSearchLoop_placed inv asked usbBlockNum begin
        (Or.inl ⟨rfl, le_rfl⟩) (fun some => absurd rfl some) search
      refine absurd ⟨g, count, size, placed, enough, ?_⟩ none
      rw [rover, block_le_iff, block_le_iff]
      exact side.symm

/-- `NULL` means that no run fits, exactly where none does or one lies on one side of the rover. -/
theorem usb_malloc_complete_iff {s : UsbRun} (called : UsbCalled p s) (wanted boundary : BitVec 32) :
    (∀ turns h, usbMalloc p turns s.heap wanted boundary = some (h, 0) →
      ¬UsbFits p s.live wanted boundary) ↔
    (UsbFits p s.live wanted boundary → 0 ≤ wanted.toInt ∧ UsbPlaced p s wanted boundary) := by
  have inv := usbCalled_inv called
  obtain ⟨first, rover, at_first⟩ := inv.rover
  constructor
  · intro complete fits
    have asked : 0 ≤ wanted.toInt := by
      by_contra negative
      refine complete 0 s.heap ?_ fits
      rw [usbMalloc, if_pos]
      by_contra more
      exact negative (inv.asked more)
    refine ⟨asked, ?_⟩
    by_contra none
    obtain ⟨h, null⟩ := usbMalloc_misses called asked fits none
    exact complete usbBlockNum h null fits
  · intro placed turns h null fits
    obtain ⟨asked, f, k, size, run, large, side⟩ := placed fits
    have inPool := run.inPool
    have blocks := run.some
    rcases usbMalloc_null inv null with refused | ⟨cur, missed⟩
    · exact run.lt_free inv large asked refused
    · rw [rover] at missed
      rw [rover, block_le_iff, block_le_iff] at side
      by_cases atEnd : first = usbBlockNum
      · subst atEnd
        rw [if_pos (by rw [p.block_limit])] at missed
        refine usbSearchLoop_not_missed inv run large turns cur
          (.restart (block_zero p).symm (by decide) (.zero s.live) rfl) (Or.inl ⟨⟨by omega, ?_⟩, ?_⟩)
          missed
        · exact fun late => absurd late (Nat.not_lt_zero f)
        · exact Or.inl rfl
      · have inside : first < usbBlockNum := lt_of_le_of_ne at_first.1 atEnd
        rw [if_neg (by rw [p.limit_le_block_iff]; omega)] at missed
        refine usbSearchLoop_not_missed inv run large turns cur (.restart rfl inside at_first rfl) ?_
          missed
        rcases side with before | later
        · exact Or.inr ⟨rfl, le_rfl, before⟩
        · exact Or.inl ⟨⟨by omega, fun late => by omega⟩, Or.inl rfl⟩

theorem usb_malloc_complete_fresh :
    UsbCalled usbPoolAt ⟨usbInitializeMemoryPool usbPoolAt fun _ => 0, []⟩ ∧ ∀ turns h,
      usbMalloc usbPoolAt turns (usbInitializeMemoryPool usbPoolAt fun _ => 0) 100 32 = some (h, 0) →
        ¬UsbFits usbPoolAt [] 100 32 := by
  refine ⟨⟨_, .refl⟩, (usb_malloc_complete_iff
    (s := ⟨usbInitializeMemoryPool usbPoolAt fun _ => 0, []⟩) ⟨_, .refl⟩ 100 32).mpr fun _ =>
    ⟨by decide, 0, 2, 128, ⟨by decide, by decide, ?_, by decide, ?_⟩, by decide, ?_⟩⟩
  · intro b _ _ q none
    cases none
  · exact fun _ => by decide
  · exact Or.inr le_rfl

/-- Half the pool is handed out and given back; then more than half is asked for. -/
theorem wholePool_missed : ∃ s, UsbCalled usbPoolAt s ∧ s.live = [] ∧
    UsbFits usbPoolAt s.live 20000 4 ∧
    ∃ h, usbMalloc usbPoolAt usbBlockNum s.heap 20000 4 = some (h, 0) := by
  have given : (usbMalloc usbPoolAt 256 (usbInitializeMemoryPool usbPoolAt fun _ => 0) 16000 4).map
      (fun out => (out.2, out.1.pCurrent)) = some (0x40000010, 0x40003f00) := by decide +kernel
  cases result : usbMalloc usbPoolAt 256 (usbInitializeMemoryPool usbPoolAt fun _ => 0) 16000 4 with
  | none =>
    rw [result] at given
    cases given
  | some out =>
    obtain ⟨h, ptr⟩ := out
    rw [result] at given
    obtain ⟨rfl, rover⟩ := Prod.mk.inj (Option.some.inj given)
    have first : UsbStep usbPoolAt ⟨usbInitializeMemoryPool usbPoolAt fun _ => 0, []⟩
        ⟨h, [usbRegionAt usbPoolAt h.mem 0x40000010 16000 4]⟩ := .malloc result (by decide)
    generalize usbRegionAt usbPoolAt h.mem 0x40000010 16000 4 = r at first
    have second : UsbStep usbPoolAt ⟨h, [r]⟩ ⟨usbFree usbPoolAt h (r.ptr usbPoolAt), [r].erase r⟩ :=
      .free (List.mem_singleton.mpr rfl)
    rw [List.erase_cons_head] at second
    have called := usbCalled_of_reachable ⟨fun _ => 0, .tail (.tail .refl first) second⟩
    have fits : UsbFits usbPoolAt [] 20000 4 := by
      refine ⟨0, usbBlockNum, 32752, ⟨by decide, by decide, ?_, by decide, ?_⟩, by decide⟩
      · intro b _ _ q none
        cases none
      · intro wide
        exact absurd wide (by decide)
    refine ⟨_, called, rfl, fits, usbMalloc_misses called (by decide) fits ?_⟩
    rintro ⟨f, k, size, run, large, side⟩
    have inPool := run.inPool
    have amount := run.size
    have narrow : usbDataOffset 4 = 16 := by decide
    have asked : (20000 : BitVec 32).toInt = 20000 := by decide
    have base : usbPoolAt.base = 0x40000000 := rfl
    rw [usbFree_pCurrent] at side
    change h.pCurrent = 0x40003f00 at rover
    rw [rover] at side
    rw [narrow] at amount
    simp only [usbBlockNum, usbMemBlockSize, usbMemoryPoolSize, UsbPool.block, base] at *
    omega

end Calls

end NuMakerMA35
