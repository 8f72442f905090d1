import NuMakerMA35.NfiMarker

namespace NuMakerMA35

/-- A block that the product of 32 bits can come to. -/
def NfiGeometry.Named (g : NfiGeometry) (block : Nat) : Prop :=
  block < g.blocks ∧ block < 2 ^ 32 / g.erasesize

def Dirty (spare : Nat → Byte) : Prop := spare 2 = 0 ∨ spare 3 = 0

instance (spare : Nat → Byte) : Decidable (Dirty spare) := inferInstanceAs (Decidable (_ ∨ _))

theorem nfiNandReadOobHwecc_zero_iff (spare : Nat → Byte) :
    nfiNandReadOobHwecc spare 0 = spare 0 ↔ spare 0 = 0xff ∨ Dirty spare := by
  unfold nfiNandReadOobHwecc Dirty
  by_cases blank : spare 2 ≠ 0 ∧ spare 3 ≠ 0
  · rw [if_pos blank]
    constructor
    · exact fun same => .inl same.symm
    · rintro (none | two | three)
      · exact none.symm
      · exact absurd two blank.1
      · exact absurd three blank.2
  · rw [if_neg blank]
    simp only [true_iff]
    right
    by_contra none
    exact blank (not_or.mp none)

theorem checkShortPattern_iff (spare : Nat → Byte) :
    checkShortPattern (nfiNandReadOobHwecc spare) = true ↔ spare 0 ≠ 0xff ∧ Dirty spare := by
  unfold checkShortPattern nfiNandReadOobHwecc Dirty
  by_cases blank : spare 2 ≠ 0 ∧ spare 3 ≠ 0
  · rw [if_pos blank]
    constructor
    · intro other
      exact absurd rfl (of_decide_eq_true other)
    · rintro ⟨-, two | three⟩
      · exact absurd two blank.1
      · exact absurd three blank.2
  · rw [if_neg blank]
    simp only [decide_eq_true_eq, ne_eq, iff_self_and]
    intro _
    by_contra none
    exact blank (not_or.mp none)

/-- A block has a marker on a page that was programmed, among those that are scanned. -/
def Shown (g : NfiGeometry) (spare : Nat → Nat → Byte) (block : Nat) : Prop :=
  (spare (g.markerPage block) 0 ≠ 0xff ∧ Dirty (spare (g.markerPage block))) ∨
    g.scan2ndpage = true ∧
      (spare (g.markerPage block + 1) 0 ≠ 0xff ∧ Dirty (spare (g.markerPage block + 1)))

instance (g : NfiGeometry) (spare : Nat → Nat → Byte) (block : Nat) : Decidable (Shown g spare block) :=
  inferInstanceAs (Decidable (_ ∨ _))

theorem Shown.marked {g : NfiGeometry} {spare : Nat → Nat → Byte} {block : Nat}
    (h : Shown g spare block) : NfiHistory.Marked g spare block := by
  rcases h with ⟨marker, -⟩ | ⟨second, marker, -⟩
  · exact .inl marker
  · exact .inr ⟨second, marker⟩

section Scan

variable (g : NfiGeometry)

theorem scanStart_eq (block : Nat) :
    block * g.erasesize + (if g.scanlastpage then
      g.erasesize - g.writesize * (if g.scan2ndpage then 2 else 1) else 0) =
      g.markerPage block * g.writesize := by
  rw [← g.markerPage_offset]
  by_cases last : g.scanlastpage = true
  · have first : g.scan2ndpage = false := by
      by_contra second
      rw [g.one_scan (by simpa using second)] at last
      cases last
    simp [last, first]
  · simp [last]

theorem createBbt_iff (spare : Nat → Nat → Byte) (block : Nat) :
    createBbt g spare block = true ↔ block < g.blocks ∧ Shown g spare block := by
  unfold createBbt Shown
  dsimp only
  rw [scanStart_eq, Bool.and_eq_true, decide_eq_true_eq, ← checkShortPattern_iff,
    ← checkShortPattern_iff]
  have here : g.markerPage block * g.writesize / g.writesize = g.markerPage block :=
    Nat.mul_div_cancel _ g.writesize_pos
  have next : (g.markerPage block * g.writesize + g.writesize) / g.writesize =
      g.markerPage block + 1 := by
    rw [← Nat.succ_mul, Nat.mul_div_cancel _ g.writesize_pos]
  by_cases second : g.scan2ndpage = true
  · simp [second, scanBlockFast, here, next]
  · simp [second, scanBlockFast, here]

end Scan

section Ops

variable {g : NfiGeometry} {dev : NfiPartition g} {chip : NfiChip}

theorem transfer_becomes (f : NfiFlash) {op : NfiOp} (single : op.isCommand = false)
    (noErase : ∀ block, op ≠ .eraseBlock block) (noMark : ∀ block, op ≠ .markBadblock block) :
    ∃ new, NfiBecomes g f new (dev.call chip f op).2 ∧ ∀ t ∈ new, ∃ x, t = .program x := by
  cases op with
  | readPage page dataLen =>
    refine ⟨[], ?_, by simp⟩
    simp only [NfiPartition.call, NfiPartition.readPage]
    split_ifs
    · exact .refl f
    · exact .refl f
    · rw [NfiPartition.pageOffset_eq]
      exact nandReadSkipBad_becomes g chip _ _ f
  | writePage page data =>
    obtain ⟨new, became, only⟩ := @NfiPartition.writePage_becomes g dev chip page data f
    refine ⟨new, became, ?_⟩
    intro t inside
    obtain ⟨x, same, -⟩ := only t inside
    exact ⟨x, same⟩
  | movePage srcPage dstPage =>
    obtain ⟨new, became, only⟩ := @NfiPartition.movePage_becomes g dev chip srcPage dstPage f
    refine ⟨new, became, ?_⟩
    intro t inside
    obtain ⟨x, same, -⟩ := only t inside
    exact ⟨x, same⟩
  | checkBlock block => exact ⟨[], .refl f, by simp⟩
  | eraseBlock block => exact absurd rfl (noErase block)
  | markBadblock block => exact absurd rfl (noMark block)
  | eraseAll => cases single
  | eraseForce => cases single

theorem NfiBecomes.markers {f f' : NfiFlash} {new : List NfiTouch} (became : NfiBecomes g f new f')
    (only : ∀ t ∈ new, ∃ x, t = .program x) (block : Nat) :
    (NfiHistory.Marked g f'.spare block ↔ NfiHistory.Marked g f.spare block) ∧
      (Shown g f.spare block → Shown g f'.spare block) := by
  have noSpare (x : Nat) : .programSpare x ∉ new := by
    intro inside
    obtain ⟨y, same⟩ := only _ inside
    cases same
  have noErase (x : Nat) : .erase x ∉ new := by
    intro inside
    obtain ⟨y, same⟩ := only _ inside
    cases same
  have first (x : Nat) : f'.spare x 0 = f.spare x 0 := became.marker x (noSpare x) (noErase _)
  have dirty (x : Nat) : Dirty (f.spare x) → Dirty (f'.spare x) := by
    have zero (c : Nat) (before : f.spare x c = 0) : f'.spare x c = 0 := by
      rw [became.cleared x (noErase _) c, before]
      exact BitVec.zero_and
    exact Or.imp (zero 2) (zero 3)
  constructor
  · unfold NfiHistory.Marked
    rw [first, first]
  · rintro (⟨marker, programmed⟩ | ⟨second, marker, programmed⟩)
    · exact .inl ⟨by rwa [first], dirty _ programmed⟩
    · exact .inr ⟨second, by rwa [first], dirty _ programmed⟩

theorem nandEraseNand_refused {scrub : Bool} {block : Nat} {f : NfiFlash}
    (refused : chip.wp f.touched = true ∨ scrub = false ∧ f.bbt block = true) :
    (nandEraseNand g chip scrub (block * g.erasesize) f).2 = f := by
  unfold nandEraseNand
  rw [if_neg (by simp), Nat.mul_div_cancel _ g.erasesize_pos]
  by_cases wp : chip.wp f.touched = true
  · rw [if_pos wp]
  · obtain ⟨off, bad⟩ := refused.resolve_left wp
    rw [if_neg wp, if_pos (by simp [off, bad])]

@[simp] theorem NfiFlash.invalidate_touched (f : NfiFlash) (stale : Nat → Bool) :
    (f.invalidate stale).touched = f.touched := by
  unfold NfiFlash.invalidate
  split_ifs <;> rfl

@[simp] theorem NfiFlash.invalidate_spare (f : NfiFlash) (stale : Nat → Bool) :
    (f.invalidate stale).spare = f.spare := by
  unfold NfiFlash.invalidate
  split_ifs <;> rfl

theorem singleErase_spare (block : Nat) (f : NfiFlash) :
    (singleErase g chip block f).2.touched = f.touched ++ [.erase block] ∧
      (singleErase g chip block f).2.spare =
        if chip.eraseFails (f.touched ++ [.erase block]) = true then f.spare
        else fun x => if x / g.pagesPerBlock = block then fun _ => 0xff else f.spare x := by
  unfold singleErase NfiFlash.touch
  dsimp only
  split_ifs <;> exact ⟨rfl, rfl⟩

theorem nandEraseNand_spare {scrub : Bool} {block : Nat} {f : NfiFlash}
    (writable : chip.wp f.touched = false) (free : scrub = true ∨ f.bbt block = false) :
    (nandEraseNand g chip scrub (block * g.erasesize) f).2.touched = f.touched ++ [.erase block] ∧
      (nandEraseNand g chip scrub (block * g.erasesize) f).2.spare =
        if chip.eraseFails (f.touched ++ [.erase block]) = true then f.spare
        else fun x => if x / g.pagesPerBlock = block then fun _ => 0xff else f.spare x := by
  have allowed : (!scrub && f.bbt block) = false := by
    rcases free with on | good
    · simp [on]
    · simp [good]
  unfold nandEraseNand
  rw [if_neg (by simp), if_neg (by simp [writable]), Nat.mul_div_cancel _ g.erasesize_pos,
    if_neg (by simp [allowed])]
  dsimp only
  obtain ⟨touched, spare⟩ := @singleErase_spare g chip block
    (f.invalidate fun cached => decide (block * g.erasesize / g.writesize ≤ cached) &&
      decide (cached < block * g.erasesize / g.writesize + g.pagesPerBlock))
  rw [NfiFlash.invalidate_touched] at touched spare
  rw [NfiFlash.invalidate_spare] at spare
  exact ⟨touched, spare⟩

def markedSpare (spare : Nat → Byte) (column : Nat) : Byte := if column = 0 then 0 else spare column

theorem nandWriteOobStd_spec (page : Nat) (f : NfiFlash) :
    ((nandWriteOobStd chip page (fun column => if column = 0 then 0 else 0xff) f).1 = 0 ↔
        chip.programFails (f.touched ++ [.programSpare page]) = false) ∧
      ((nandWriteOobStd chip page (fun column => if column = 0 then 0 else 0xff) f).1 = 0 →
        (nandWriteOobStd chip page (fun column => if column = 0 then 0 else 0xff) f).2.touched =
          f.touched ++ [.programSpare page] ∧
        (nandWriteOobStd chip page (fun column => if column = 0 then 0 else 0xff) f).2.spare =
          Function.update f.spare page (markedSpare (f.spare page))) := by
  have byte : (fun column => f.spare page column &&& if column = 0 then 0 else 0xff) =
      markedSpare (f.spare page) := by
    funext column
    unfold markedSpare
    split_ifs
    · exact BitVec.and_zero
    · exact BitVec.and_allOnes
  unfold nandWriteOobStd NfiFlash.touch
  dsimp only
  by_cases failed : chip.programFails (f.touched ++ [.programSpare page]) = true
  · rw [if_pos failed]
    simp [failed, nandEio]
  · rw [if_neg failed, byte]
    simpa using failed

theorem nandDoWriteOob_spec {page : Nat} (onChip : page < g.pages) (f : NfiFlash) :
    ((nandDoWriteOob g chip (page * g.writesize) f).1 = 0 ↔
        chip.wp f.touched = false ∧ chip.programFails (f.touched ++ [.programSpare page]) = false) ∧
      ((nandDoWriteOob g chip (page * g.writesize) f).1 = 0 →
        (nandDoWriteOob g chip (page * g.writesize) f).2.touched = f.touched ++ [.programSpare page] ∧
        (nandDoWriteOob g chip (page * g.writesize) f).2.spare =
          Function.update f.spare page (markedSpare (f.spare page))) := by
  have inside : page * g.writesize < g.size := by
    rw [g.size_pages]
    exact Nat.mul_lt_mul_of_pos_right onChip g.writesize_pos
  unfold nandDoWriteOob
  rw [if_neg (by omega), Nat.mul_div_cancel _ g.writesize_pos]
  by_cases wp : chip.wp f.touched = true
  · rw [if_pos wp]
    simp [wp, nandErofs]
  · rw [if_neg wp]
    have written := @nandWriteOobStd_spec chip page (f.invalidate fun cached => cached == page)
    rw [NfiFlash.invalidate_touched, NfiFlash.invalidate_spare] at written
    simpa [wp] using written

structure Writes (g : NfiGeometry) (chip : NfiChip) (block : Nat) (log : List NfiTouch) : Prop where
  writable : chip.wp log = false
  first : chip.programFails (log ++ [.programSpare (g.markerPage block)]) = false
  second : g.scan2ndpage = true →
    chip.wp (log ++ [.programSpare (g.markerPage block)]) = false ∧
      chip.programFails (log ++ [.programSpare (g.markerPage block)] ++
        [.programSpare (g.markerPage block + 1)]) = false

theorem markerPage_lt {block : Nat} (onChip : block < g.blocks) :
    g.markerPage block < g.pages ∧ (g.scan2ndpage = true → g.markerPage block + 1 < g.pages) := by
  obtain ⟨here, next⟩ := g.markerPage_div block
  have bound {x : Nat} (same : x / g.pagesPerBlock = block) : x < g.pages :=
    (Nat.div_lt_iff_lt_mul g.pagesPerBlock_pos).mp (by rw [same]; exact onChip)
  exact ⟨bound here, fun second => bound (next second)⟩

theorem marks_shown {spare spare' : Nat → Nat → Byte} {block : Nat}
    (first : spare' (g.markerPage block) = markedSpare (spare (g.markerPage block)))
    (second : g.scan2ndpage = true →
      spare' (g.markerPage block + 1) = markedSpare (spare (g.markerPage block + 1))) :
    NfiHistory.Marked g spare' block ∧
      (Shown g spare' block ↔ Dirty (spare (g.markerPage block)) ∨
        g.scan2ndpage = true ∧ Dirty (spare (g.markerPage block + 1))) := by
  have marker (s : Nat → Byte) : markedSpare s 0 ≠ 0xff := by
    rw [markedSpare, if_pos rfl]
    decide
  have shown (s : Nat → Byte) : markedSpare s 0 ≠ 0xff ∧ Dirty (markedSpare s) ↔ Dirty s :=
    and_iff_right (marker s)
  refine ⟨.inl (by rw [first]; exact marker _), ?_⟩
  unfold Shown
  rw [first, shown]
  by_cases two : g.scan2ndpage = true
  · rw [second two, shown]
  · simp [two]

/-- Marking succeeds exactly if all bytes are programmed; the block then has a marker, which is
shown exactly if one of the pages was programmed before. -/
theorem nandDefaultBlockMarkbad_spec {block : Nat} (onChip : block < g.blocks) (f : NfiFlash) :
    ((nandDefaultBlockMarkbad g chip (block * g.erasesize) f).1 = 0 ↔ Writes g chip block f.touched) ∧
      ((nandDefaultBlockMarkbad g chip (block * g.erasesize) f).1 = 0 →
        NfiHistory.Marked g (nandDefaultBlockMarkbad g chip (block * g.erasesize) f).2.spare block ∧
        (Shown g (nandDefaultBlockMarkbad g chip (block * g.erasesize) f).2.spare block ↔
          Dirty (f.spare (g.markerPage block)) ∨
            g.scan2ndpage = true ∧ Dirty (f.spare (g.markerPage block + 1)))) := by
  obtain ⟨here, next⟩ := markerPage_lt onChip
  obtain ⟨okFirst, doneFirst⟩ := @nandDoWriteOob_spec g chip _ here f
  unfold nandDefaultBlockMarkbad
  dsimp only
  rw [g.markerPage_offset]
  by_cases second : g.scan2ndpage = true
  · rw [if_pos second]
    dsimp only
    obtain ⟨okSecond, doneSecond⟩ := @nandDoWriteOob_spec g chip _ (next second)
      (nandDoWriteOob g chip (g.markerPage block * g.writesize) f).2
    rw [Nat.succ_mul] at okSecond doneSecond
    by_cases first : (nandDoWriteOob g chip (g.markerPage block * g.writesize) f).1 = 0
    · rw [if_pos first]
      obtain ⟨touched, spare⟩ := doneFirst first
      obtain ⟨writable, works⟩ := okFirst.mp first
      rw [touched] at okSecond
      refine ⟨?_, ?_⟩
      · rw [okSecond]
        exact ⟨fun both => ⟨writable, works, fun _ => both⟩, fun writes => writes.second second⟩
      · intro done
        obtain ⟨-, spare'⟩ := doneSecond done
        rw [spare', spare]
        apply marks_shown
        · rw [Function.update_of_ne (by omega), Function.update_self]
        · intro _
          rw [Function.update_self, Function.update_of_ne (by omega)]
    · rw [if_neg first]
      refine ⟨?_, fun done => absurd done first⟩
      constructor
      · exact fun done => absurd done first
      · exact fun writes => absurd (okFirst.mpr ⟨writes.writable, writes.first⟩) first
  · rw [if_neg second]
    refine ⟨?_, ?_⟩
    · rw [okFirst]
      exact ⟨fun both => ⟨both.1, both.2, fun h => absurd h second⟩, fun writes => ⟨writes.1, writes.2⟩⟩
    · intro done
      rw [(doneFirst done).2]
      exact marks_shown (by rw [Function.update_self]) fun h => absurd h second

/-- A marking that is to last: the erasure before it fails, some scanned page of the block was
programmed before, and all marker bytes get programmed. -/
structure Sticks (g : NfiGeometry) (chip : NfiChip) (f : NfiFlash) (block : Nat) : Prop where
  writable : chip.wp f.touched = false
  kept : chip.eraseFails (f.touched ++ [.erase block]) = true
  dirty : Dirty (f.spare (g.markerPage block)) ∨
    g.scan2ndpage = true ∧ Dirty (f.spare (g.markerPage block + 1))
  writes : Writes g chip block (f.touched ++ [.erase block])

theorem mtdBlockMarkbad_iff {block : Nat} (onChip : block < g.blocks) {f : NfiFlash}
    (good : f.bbt block = false) :
    ((mtdBlockMarkbad g chip (block * g.erasesize) f).1 = 0 ∧
        Shown g (mtdBlockMarkbad g chip (block * g.erasesize) f).2.spare block) ↔
      Sticks g chip f block := by
  have inside : block * g.erasesize ≤ g.size := by
    rw [g.size_eq]
    exact Nat.mul_le_mul_right _ onChip.le
  obtain ⟨ok, done⟩ := @nandDefaultBlockMarkbad_spec g chip _ onChip
    (nandEraseNand g chip false (block * g.erasesize) f).2
  unfold mtdBlockMarkbad
  rw [if_neg (by omega), Nat.mul_div_cancel _ g.erasesize_pos, if_neg (by simp [good])]
  dsimp only [nandBlockMarkbadLowlevel]
  by_cases wp : chip.wp f.touched = true
  · rw [nandEraseNand_refused (.inl wp)] at ok ⊢
    constructor
    · rintro ⟨zero, -⟩
      rw [(ok.mp zero).writable] at wp
      cases wp
    · intro sticks
      rw [sticks.writable] at wp
      cases wp
  rw [Bool.not_eq_true] at wp
  obtain ⟨touched, spare⟩ := @nandEraseNand_spare g chip false _ _ wp (.inr good)
  rw [touched] at ok
  by_cases fails : chip.eraseFails (f.touched ++ [.erase block]) = true
  · rw [if_pos fails] at spare
    rw [spare] at done
    constructor
    · rintro ⟨zero, shown⟩
      exact ⟨wp, fails, (done zero).2.mp shown, ok.mp zero⟩
    · intro sticks
      have zero := ok.mpr sticks.writes
      exact ⟨zero, (done zero).2.mpr sticks.dirty⟩
  · rw [if_neg fails] at spare
    rw [spare] at done
    constructor
    · rintro ⟨zero, shown⟩
      exfalso
      obtain ⟨here, next⟩ := g.markerPage_div block
      have blank : ¬Dirty fun _ => (0xff : Byte) := by
        unfold Dirty
        decide
      rcases (done zero).2.mp shown with dirty | ⟨second, dirty⟩
      · dsimp only at dirty
        rw [if_pos here] at dirty
        exact blank dirty
      · dsimp only at dirty
        rw [if_pos (next second)] at dirty
        exact blank dirty
    · intro sticks
      exact absurd sticks.kept fails

theorem mtdBlockMarkbad_others {block other : Nat} (f : NfiFlash) (apart : other ≠ block) :
    (NfiHistory.Marked g (mtdBlockMarkbad g chip (block * g.erasesize) f).2.spare other ↔
        NfiHistory.Marked g f.spare other) ∧
      (Shown g f.spare other →
        Shown g (mtdBlockMarkbad g chip (block * g.erasesize) f).2.spare other) ∧
      (mtdBlockMarkbad g chip (block * g.erasesize) f).2.bbt other = f.bbt other := by
  obtain ⟨new, became, only⟩ := mtdBlockMarkbad_becomes g chip block f
  obtain ⟨here, next⟩ := g.markerPage_div other
  have same {x : Nat} (place : x / g.pagesPerBlock = other) :
      (mtdBlockMarkbad g chip (block * g.erasesize) f).2.spare x = f.spare x := by
    have foreign : ∀ t ∈ new, t.block g = block := by
      intro t inside
      obtain ⟨-, rfl | ⟨y, rfl, same⟩⟩ := only t inside
      · rfl
      · exact same
    refine became.spare x ?_ ?_ ?_
    all_goals
      intro inside
      exact apart (place.symm.trans (foreign _ inside))
  have first := same here
  have second (two : g.scan2ndpage = true) := same (next two)
  refine ⟨?_, ?_, ?_⟩
  · unfold NfiHistory.Marked
    rw [first]
    exact or_congr Iff.rfl (and_congr_right fun two => by rw [second two])
  · unfold Shown
    rw [first]
    exact Or.imp id fun both => ⟨both.1, by rw [second both.1]; exact both.2⟩
  · unfold mtdBlockMarkbad
    rw [Nat.mul_div_cancel _ g.erasesize_pos]
    split_ifs
    · rfl
    · rfl
    · dsimp only [nandBlockMarkbadLowlevel]
      rw [Nat.mul_div_cancel _ g.erasesize_pos, Function.update_of_ne apart]
      obtain ⟨_, first, -⟩ := nandEraseNand_becomes g chip false (block * g.erasesize) f
      obtain ⟨_, later, -⟩ := nandDefaultBlockMarkbad_becomes g chip block
        (nandEraseNand g chip false (block * g.erasesize) f).2
      rw [later.bbt, first.bbt]

theorem mtdBlockMarkbad_bbt {block : Nat} (onChip : block < g.blocks) (f : NfiFlash) :
    (mtdBlockMarkbad g chip (block * g.erasesize) f).2.bbt block = true := by
  have inside : block * g.erasesize ≤ g.size := by
    rw [g.size_eq]
    exact Nat.mul_le_mul_right _ onChip.le
  unfold mtdBlockMarkbad
  rw [if_neg (by omega), Nat.mul_div_cancel _ g.erasesize_pos]
  split_ifs with bad
  · exact bad
  · dsimp only [nandBlockMarkbadLowlevel]
    rw [Nat.mul_div_cancel _ g.erasesize_pos, Function.update_self]

theorem eraseBlock_spare {block : U32} (accepted : dev.blockBeyond block = false) (f : NfiFlash) :
    (dev.eraseBlock chip block f).2.bbt = f.bbt ∧
      (dev.eraseBlock chip block f).2.spare =
        if chip.wp f.touched = true ∨ (chip.scrub f.touched = false ∧ f.bbt (dev.startBlock block) = true) ∨
            chip.eraseFails (f.touched ++ [.erase (dev.startBlock block)]) = true
        then f.spare
        else fun x => if x / g.pagesPerBlock = dev.startBlock block then fun _ => 0xff else f.spare x := by
  have inside := NfiPartition.startBlock_lt accepted
  have fits : dev.startBlock block * g.erasesize + g.erasesize ≤ g.size := by
    rw [g.size_eq, ← Nat.succ_mul]
    exact Nat.mul_le_mul_right _ inside
  have erased : mtdErase g chip (dev.blockOffset block) f =
      nandEraseNand g chip (chip.scrub f.touched) (dev.startBlock block * g.erasesize) f := by
    unfold mtdErase
    rw [NfiPartition.blockOffset_eq, if_neg (by omega)]
  obtain ⟨_, became, -⟩ := @NfiPartition.eraseBlock_becomes g dev chip block f
  refine ⟨became.bbt, ?_⟩
  simp only [NfiPartition.eraseBlock, accepted, Bool.false_eq_true, ↓reduceIte, erased]
  by_cases refused : chip.wp f.touched = true ∨
      chip.scrub f.touched = false ∧ f.bbt (dev.startBlock block) = true
  · rw [nandEraseNand_refused refused, if_pos (refused.imp_right .inl)]
  · obtain ⟨writable, free⟩ := not_or.mp refused
    rw [Bool.not_eq_true] at writable
    have free' : chip.scrub f.touched = true ∨ f.bbt (dev.startBlock block) = false := by
      rcases Bool.eq_false_or_eq_true (chip.scrub f.touched) with on | off
      · exact .inl on
      · exact .inr (by simpa [off] using free)
    rw [(nandEraseNand_spare writable free').2]
    simp only [writable, free, Bool.false_eq_true, false_or]

end Ops

namespace NfiHistory

variable {g : NfiGeometry} {h : NfiHistory}

theorem startBlock_named {dev : NfiPartition g} {block : U32} (accepted : dev.blockBeyond block = false) :
    g.Named (dev.startBlock block) := by
  refine ⟨NfiPartition.startBlock_lt accepted, Nat.mod_lt _ ?_⟩
  exact Nat.div_pos (Nat.pow_le_pow_right (by omega) (g.erase_fits.le.trans (by omega))) g.erasesize_pos

/-- The condition on an event: no erasure of a block with a shown marker gets through, and a block
that gets marked is shown already or its marking sticks. -/
def KeepsMarkers (h : NfiHistory) : NfiEvent g → Prop
  | .call dev chip (.eraseBlock block) _ => h.stack.hung = false → dev.blockBeyond block = false →
    Shown g h.stack.flash.spare (dev.startBlock block) →
      chip.wp h.stack.flash.touched = true ∨ chip.scrub h.stack.flash.touched = false ∨
        chip.eraseFails (h.stack.flash.touched ++ [.erase (dev.startBlock block)]) = true
  | .call dev chip (.markBadblock block) _ => h.stack.hung = false → dev.blockBeyond block = false →
    Shown g h.stack.flash.spare (dev.startBlock block) ∨
      Sticks g chip h.stack.flash (dev.startBlock block)
  | _ => True

/-- The known blocks are those with a marker, all of them shown, and a table that was made says so. -/
structure MarkerInv (g : NfiGeometry) (h : NfiHistory) : Prop where
  honest : h.honest = true
  known : ∀ block, g.Named block → (h.known block = true ↔ Marked g h.stack.flash.spare block)
  shown : ∀ block, g.Named block → Marked g h.stack.flash.spare block →
    Shown g h.stack.flash.spare block
  table : h.stack.scanned = true → ∀ block, g.Named block →
    (h.stack.flash.bbt block = true ↔ Marked g h.stack.flash.spare block)

@[simp] theorem ready_spare {dev : NfiPartition g} {chip : NfiChip} {op : NfiOp} (s : NfiStack) :
    (s.ready dev chip op).spare = s.flash.spare := by
  unfold NfiStack.ready
  split_ifs <;> rfl

@[simp] theorem ready_touched {dev : NfiPartition g} {chip : NfiChip} {op : NfiOp} (s : NfiStack) :
    (s.ready dev chip op).touched = s.flash.touched := by
  unfold NfiStack.ready
  split_ifs <;> rfl

theorem MarkerInv.ready_bbt (inv : MarkerInv g h) {dev : NfiPartition g} {chip : NfiChip} {op : NfiOp}
    (made : (h.stack.scanned || dev.checksBad chip h.stack.flash op) = true) {block : Nat}
    (onChip : g.Named block) :
    (h.stack.ready dev chip op).bbt block = true ↔ Marked g h.stack.flash.spare block := by
  unfold NfiStack.ready
  by_cases scanned : h.stack.scanned = true
  · rw [if_neg (by simp [scanned])]
    exact inv.table scanned block onChip
  · rw [Bool.not_eq_true] at scanned
    rw [scanned, Bool.false_or] at made
    rw [if_pos (by simp [scanned, made])]
    dsimp only
    rw [createBbt_iff]
    exact ⟨fun both => both.2.marked, fun marked => ⟨onChip.1, inv.shown block onChip marked⟩⟩

theorem report_checkBlock {s : NfiStack} {dev : NfiPartition g} {chip : NfiChip} {block : U32}
    (accepted : dev.blockBeyond block = false) (running : s.hung = false) :
    s.report (.call dev chip (.checkBlock block) rfl) = some rtEok ↔
      (s.ready dev chip (.checkBlock block)).bbt (dev.startBlock block) = false := by
  have onChip : dev.startBlock block * g.erasesize ≤ g.size := by
    rw [g.size_eq]
    exact Nat.mul_le_mul_right _ (NfiPartition.startBlock_lt accepted).le
  have isbad (bbt : Nat → Bool) : mtdBlockIsbad g bbt (dev.blockOffset block) =
      if bbt (dev.startBlock block) then 1 else 0 := by
    unfold mtdBlockIsbad
    rw [NfiPartition.blockOffset_eq, if_neg (by omega), Nat.mul_div_cancel _ g.erasesize_pos]
  simp only [NfiStack.report, running, NfiPartition.call, NfiPartition.checkBlock, accepted, isbad,
    Bool.false_eq_true, ↓reduceIte]
  cases (s.ready dev chip (.checkBlock block)).bbt (dev.startBlock block) with
  | true => decide
  | false => decide

theorem MarkerInv.sound (inv : MarkerInv g h) : MarkersSound g h where
  honest := inv.honest
  now dev chip block accepted known fine := by
    have onChip := startBlock_named accepted
    by_cases running : h.stack.hung = false
    · have good := (report_checkBlock accepted running).mp fine
      have bad := (@MarkerInv.ready_bbt _ _ inv dev chip (.checkBlock block)
        (by simp [NfiPartition.checksBad, accepted]) _ onChip).mpr ((inv.known _ onChip).mp known)
      rw [good] at bad
      cases bad
    · simp only [NfiStack.report, running, ↓reduceIte] at fine
      cases fine
  later dev chip block accepted known fine := by
    have onChip := startBlock_named accepted
    have good := (report_checkBlock accepted rfl).mp fine
    have shown := inv.shown _ onChip ((inv.known _ onChip).mp known)
    have bad := (createBbt_iff g h.stack.flash.spare (dev.startBlock block)).mpr ⟨onChip.1, shown⟩
    simp only [NfiStack.step, NfiStack.ready, NfiPartition.checksBad, accepted, Bool.not_false,
      Bool.and_self, ↓reduceIte] at good
    rw [good] at bad
    cases bad

theorem not_sound_of_lost {dev : NfiPartition g} {block : U32} (accepted : dev.blockBeyond block = false)
    (known : h.known (dev.startBlock block) = true)
    (lost : ¬Shown g h.stack.flash.spare (dev.startBlock block)) : ¬MarkersSound g h := by
  intro sound
  refine sound.later dev ⟨fun _ => false, fun _ _ => false, fun _ => false, fun _ => false,
    fun _ => false, fun _ _ => 0⟩ block accepted known ?_
  rw [report_checkBlock accepted rfl]
  simp only [NfiStack.step, NfiStack.ready, NfiPartition.checksBad, accepted, Bool.not_false,
    Bool.and_self, ↓reduceIte]
  rw [← Bool.not_eq_true, createBbt_iff]
  exact fun both => lost both.2

theorem MarkerInv.call (inv : MarkerInv g h) {dev : NfiPartition g} {chip : NfiChip} {op : NfiOp}
    {single : op.isCommand = false} (running : h.stack.hung = false)
    (noMark : marking h.stack (.call dev chip op single) = none)
    (bbt : (dev.call chip (h.stack.ready dev chip op) op).2.bbt = (h.stack.ready dev chip op).bbt)
    (marked : ∀ block, g.Named block →
      (Marked g (dev.call chip (h.stack.ready dev chip op) op).2.spare block ↔
        Marked g h.stack.flash.spare block))
    (shown : ∀ block, g.Named block → Shown g h.stack.flash.spare block →
      Shown g (dev.call chip (h.stack.ready dev chip op) op).2.spare block) :
    MarkerInv g (h.step (.call dev chip op single)) where
  honest := by
    simp only [step, noMark]
    exact inv.honest
  known block onChip := by
    simp only [step, noMark, NfiStack.step, running, Bool.false_eq_true, ↓reduceIte]
    rw [marked block onChip]
    exact inv.known block onChip
  shown block onChip := by
    simp only [step, NfiStack.step, running, Bool.false_eq_true, ↓reduceIte]
    intro found
    exact shown block onChip (inv.shown block onChip ((marked block onChip).mp found))
  table := by
    simp only [step, NfiStack.step, running, Bool.false_eq_true, ↓reduceIte]
    intro made block onChip
    rw [bbt, marked block onChip]
    exact inv.ready_bbt made onChip

theorem blank_markers {spare : Nat → Nat → Byte} {erased block : Nat} (apart : block ≠ erased) :
    (Marked g (fun x => if x / g.pagesPerBlock = erased then fun _ => 0xff else spare x) block ↔
        Marked g spare block) ∧
      (Shown g spare block →
        Shown g (fun x => if x / g.pagesPerBlock = erased then fun _ => 0xff else spare x) block) := by
  obtain ⟨here, next⟩ := g.markerPage_div block
  unfold Marked Shown
  dsimp only
  rw [if_neg (by rwa [here])]
  by_cases second : g.scan2ndpage = true
  · rw [if_neg (by rwa [next second])]
    exact ⟨Iff.rfl, id⟩
  · simp [second]

theorem blank_not_marked {spare : Nat → Nat → Byte} (erased : Nat) :
    ¬Marked g (fun x => if x / g.pagesPerBlock = erased then fun _ => 0xff else spare x) erased := by
  obtain ⟨here, next⟩ := g.markerPage_div erased
  unfold Marked
  dsimp only
  rw [if_pos here]
  rintro (other | ⟨second, other⟩)
  · exact other rfl
  · rw [if_pos (next second)] at other
    exact other rfl

theorem Sticks.congr {chip : NfiChip} {f f' : NfiFlash} {block : Nat} (spare : f'.spare = f.spare)
    (touched : f'.touched = f.touched) : Sticks g chip f' block ↔ Sticks g chip f block := by
  constructor
  · rintro ⟨writable, kept, dirty, writes⟩
    rw [touched] at writable kept writes
    rw [spare] at dirty
    exact ⟨writable, kept, dirty, writes⟩
  · rintro ⟨writable, kept, dirty, writes⟩
    rw [← touched] at writable kept writes
    rw [← spare] at dirty
    exact ⟨writable, kept, dirty, writes⟩

theorem MarkerInv.transfer (inv : MarkerInv g h) {dev : NfiPartition g} {chip : NfiChip} {op : NfiOp}
    (single : op.isCommand = false) (running : h.stack.hung = false)
    (noErase : ∀ block, op ≠ .eraseBlock block) (noMark : ∀ block, op ≠ .markBadblock block) :
    MarkerInv g (h.step (.call dev chip op single)) := by
  obtain ⟨new, became, only⟩ := @transfer_becomes g dev chip (h.stack.ready dev chip op) op single
    noErase noMark
  have markers := fun block => became.markers only block
  simp only [ready_spare] at markers
  refine inv.call running ?_ became.bbt (fun block _ => (markers block).1) fun block _ => (markers block).2
  unfold marking
  split
  · rename_i same
    exact absurd (NfiEvent.call.inj same).2.2 (noMark _)
  · rfl

theorem MarkerInv.eraseBlock (inv : MarkerInv g h) {dev : NfiPartition g} {chip : NfiChip} {block : U32}
    (running : h.stack.hung = false)
    (good : h.KeepsMarkers (.call dev chip (.eraseBlock block) rfl)) :
    MarkerInv g (h.step (.call dev chip (.eraseBlock block) rfl)) := by
  by_cases beyond : dev.blockBeyond block = true
  · have same : (dev.call chip (h.stack.ready dev chip (.eraseBlock block)) (.eraseBlock block)).2 =
        h.stack.ready dev chip (.eraseBlock block) := by
      simp [NfiPartition.call, NfiPartition.eraseBlock, beyond]
    apply inv.call running rfl
    all_goals rw [same]
    all_goals simp
  rw [Bool.not_eq_true] at beyond
  obtain ⟨table, spare⟩ :=
    @eraseBlock_spare _ _ chip _ beyond (h.stack.ready dev chip (.eraseBlock block))
  rw [ready_touched, ready_spare] at spare
  have onChip := startBlock_named beyond
  by_cases kept : chip.wp h.stack.flash.touched = true ∨ (chip.scrub h.stack.flash.touched = false ∧
      (h.stack.ready dev chip (.eraseBlock block)).bbt (dev.startBlock block) = true) ∨
      chip.eraseFails (h.stack.flash.touched ++ [.erase (dev.startBlock block)]) = true
  · rw [if_pos kept] at spare
    apply inv.call running rfl
    · exact table
    all_goals simp only [NfiPartition.call]
    all_goals rw [spare]
    · exact fun _ _ => Iff.rfl
    · exact fun _ _ => id
  · rw [if_neg kept] at spare
    obtain ⟨writable, rest⟩ := not_or.mp kept
    obtain ⟨allowed, works⟩ := not_or.mp rest
    have free : ¬Marked g h.stack.flash.spare (dev.startBlock block) := by
      intro marked
      rcases good running beyond (inv.shown _ onChip marked) with wp | off | fails
      · exact writable wp
      · have checks : (h.stack.scanned || dev.checksBad chip h.stack.flash (.eraseBlock block)) =
            true := by
          simp [NfiPartition.checksBad, beyond, writable, off]
        exact allowed ⟨off, (inv.ready_bbt checks onChip).mpr marked⟩
      · exact works fails
    apply inv.call running rfl
    · exact table
    all_goals simp only [NfiPartition.call]
    all_goals rw [spare]
    · intro b _
      by_cases here : b = dev.startBlock block
      · subst here
        exact ⟨fun marked => absurd marked (blank_not_marked _), fun marked => absurd marked free⟩
      · exact (blank_markers here).1
    · intro b _ shown
      by_cases here : b = dev.startBlock block
      · subst here
        exact absurd shown.marked free
      · exact (blank_markers here).2 shown

theorem markBadblock_eq {dev : NfiPartition g} {chip : NfiChip} {block : U32} (f : NfiFlash)
    (accepted : dev.blockBeyond block = false) :
    dev.call chip f (.markBadblock block) =
      (some rtEok, (mtdBlockMarkbad g chip (dev.startBlock block * g.erasesize) f).2) := by
  simp only [NfiPartition.call, NfiPartition.markBadblock, accepted, Bool.false_eq_true, ↓reduceIte,
    NfiPartition.blockOffset_eq]

theorem step_markBadblock {dev : NfiPartition g} {chip : NfiChip} {block : U32}
    (running : h.stack.hung = false) (accepted : dev.blockBeyond block = false) :
    let done := mtdBlockMarkbad g chip (dev.startBlock block * g.erasesize)
      (h.stack.ready dev chip (.markBadblock block))
    h.step (.call dev chip (.markBadblock block) rfl) =
      ⟨⟨done.2, true, false⟩, Function.update h.known (dev.startBlock block) true,
        h.honest && decide (done.1 = 0)⟩ := by
  have reports : h.stack.report (.call dev chip (.markBadblock block) rfl) = some rtEok := by
    simp only [NfiStack.report, running, Bool.false_eq_true, ↓reduceIte, markBadblock_eq _ accepted]
  have marks : marking h.stack (.call dev chip (.markBadblock block) rfl) =
      some (dev.startBlock block, decide ((mtdBlockMarkbad g chip (dev.startBlock block * g.erasesize)
        (h.stack.ready dev chip (.markBadblock block))).1 ≠ 0)) := by
    simp [marking, running, accepted, NfiPartition.blockOffset_eq]
  simp only [step, marks, reports, ↓reduceIte, NfiStack.step, running, Bool.false_eq_true,
    markBadblock_eq _ accepted, NfiPartition.checksBad, accepted, Bool.not_false, Bool.or_true,
    Option.isNone_some, beq_self_eq_true, Bool.and_true, ne_eq, decide_not, Bool.not_not]

theorem MarkerInv.markBadblock (inv : MarkerInv g h) {dev : NfiPartition g} {chip : NfiChip}
    {block : U32} (running : h.stack.hung = false)
    (good : h.KeepsMarkers (.call dev chip (.markBadblock block) rfl)) :
    MarkerInv g (h.step (.call dev chip (.markBadblock block) rfl)) := by
  by_cases beyond : dev.blockBeyond block = true
  · have same : (dev.call chip (h.stack.ready dev chip (.markBadblock block)) (.markBadblock block)).2 =
        h.stack.ready dev chip (.markBadblock block) := by
      simp [NfiPartition.call, NfiPartition.markBadblock, beyond]
    apply inv.call running (by simp [marking, beyond])
    all_goals rw [same]
    all_goals simp
  rw [Bool.not_eq_true] at beyond
  have onChip := startBlock_named beyond
  have checks : (h.stack.scanned || dev.checksBad chip h.stack.flash (.markBadblock block)) = true := by
    simp [NfiPartition.checksBad, beyond]
  have table := fun b onChip => @MarkerInv.ready_bbt g h inv dev chip (.markBadblock block) checks b onChip
  rw [step_markBadblock running beyond]
  by_cases shown : Shown g h.stack.flash.spare (dev.startBlock block)
  · have bad := (table _ onChip).mpr shown.marked
    have nothing : mtdBlockMarkbad g chip (dev.startBlock block * g.erasesize)
        (h.stack.ready dev chip (.markBadblock block)) =
        (0, h.stack.ready dev chip (.markBadblock block)) := by
      have inside : dev.startBlock block * g.erasesize ≤ g.size := by
        rw [g.size_eq]
        exact Nat.mul_le_mul_right _ onChip.1.le
      unfold mtdBlockMarkbad
      rw [if_neg (by omega), Nat.mul_div_cancel _ g.erasesize_pos, if_pos bad]
    have same : Function.update h.known (dev.startBlock block) true = h.known := by
      rw [← (inv.known _ onChip).mpr shown.marked, Function.update_eq_self]
    rw [nothing, same]
    exact ⟨by simp [inv.honest], by simpa using inv.known, by simpa using inv.shown,
      fun _ b onChip => by simpa using table b onChip⟩
  · have sticks := (good running beyond).resolve_left shown
    have fresh : (h.stack.ready dev chip (.markBadblock block)).bbt (dev.startBlock block) = false := by
      by_contra bad
      exact shown (inv.shown _ onChip ((table _ onChip).mp (by simpa using bad)))
    obtain ⟨zero, shown'⟩ := (mtdBlockMarkbad_iff onChip.1 fresh).mpr
      ((Sticks.congr (ready_spare h.stack) (ready_touched h.stack)).mpr sticks)
    have others := fun b apart => @mtdBlockMarkbad_others g chip (dev.startBlock block) b
      (h.stack.ready dev chip (.markBadblock block)) apart
    simp only [ready_spare] at others
    constructor
    · simp [inv.honest, zero]
    · intro b onChip
      by_cases here : b = dev.startBlock block
      · subst here
        simp [shown'.marked]
      · dsimp only
        rw [Function.update_of_ne here, (others b here).1]
        exact inv.known b onChip
    · intro b onChip marked
      by_cases here : b = dev.startBlock block
      · subst here
        exact shown'
      · exact (others b here).2.1 (inv.shown b onChip ((others b here).1.mp marked))
    · intro _ b onChip
      by_cases here : b = dev.startBlock block
      · subst here
        simp [shown'.marked, mtdBlockMarkbad_bbt onChip.1]
      · dsimp only
        rw [(others b here).2.2, (others b here).1]
        exact table b onChip

theorem MarkerInv.step (inv : MarkerInv g h) (e : NfiEvent g) (good : h.KeepsMarkers e) :
    MarkerInv g (h.step e) := by
  cases e with
  | restart => exact ⟨inv.honest, inv.known, inv.shown, fun made => by cases made⟩
  | call dev chip op single =>
    by_cases running : h.stack.hung = false
    · cases op with
      | eraseBlock block => exact inv.eraseBlock running good
      | markBadblock block => exact inv.markBadblock running good
      | readPage page dataLen => exact inv.transfer rfl running (by simp) (by simp)
      | writePage page data => exact inv.transfer rfl running (by simp) (by simp)
      | movePage srcPage dstPage => exact inv.transfer rfl running (by simp) (by simp)
      | checkBlock block => exact inv.transfer rfl running (by simp) (by simp)
      | eraseAll => cases single
      | eraseForce => cases single
    · have same : h.step (.call dev chip op single) = h := by
        rw [Bool.not_eq_false] at running
        have stays : h.stack.step (.call dev chip op single) = h.stack := by
          simp [NfiStack.step, running]
        have none : marking h.stack (.call dev chip op single) = none := by
          unfold marking
          split
          · rename_i here
            cases here
            simp [running]
          · rfl
        simp only [NfiHistory.step, stays, none]
      rw [same]
      exact inv

theorem MarkerInv.keepsMarkers (inv : MarkerInv g h) (e : NfiEvent g)
    (sound : MarkersSound g (h.step e)) : h.KeepsMarkers e := by
  unfold KeepsMarkers
  split
  · rename_i dev chip block _
    intro running accepted shown
    by_contra through
    obtain ⟨writable, rest⟩ := not_or.mp through
    obtain ⟨scrub, works⟩ := not_or.mp rest
    have onChip := startBlock_named accepted
    have spare := (@eraseBlock_spare _ _ chip _ accepted
      (h.stack.ready dev chip (.eraseBlock block))).2
    rw [ready_touched, ready_spare, if_neg (by tauto)] at spare
    refine not_sound_of_lost accepted ?_ ?_ sound
    · exact (inv.known _ onChip).mpr shown.marked
    · intro still
      simp only [NfiHistory.step, NfiStack.step, running, NfiPartition.call, Bool.false_eq_true,
        ↓reduceIte] at still
      rw [spare] at still
      exact blank_not_marked _ still.marked
  · rename_i dev chip block _
    intro running accepted
    by_contra loses
    obtain ⟨hidden, loose⟩ := not_or.mp loses
    have onChip := startBlock_named accepted
    have checks : (h.stack.scanned || dev.checksBad chip h.stack.flash (.markBadblock block)) = true := by
      simp [NfiPartition.checksBad, accepted]
    have fresh : (h.stack.ready dev chip (.markBadblock block)).bbt (dev.startBlock block) = false := by
      by_contra bad
      exact hidden (inv.shown _ onChip ((inv.ready_bbt checks onChip).mp (by simpa using bad)))
    have fails := mt (mtdBlockMarkbad_iff onChip.1 fresh).mp fun sticks =>
      loose ((Sticks.congr (ready_spare h.stack) (ready_touched h.stack)).mp sticks)
    rw [step_markBadblock running accepted] at sound
    have zero : (mtdBlockMarkbad g chip (dev.startBlock block * g.erasesize)
        (h.stack.ready dev chip (.markBadblock block))).1 = 0 := by
      have honest := sound.honest
      simp only [Bool.and_eq_true, decide_eq_true_eq] at honest
      exact honest.2
    refine not_sound_of_lost accepted ?_ (fun shown => fails ⟨zero, shown⟩) sound
    simp
  · trivial

def wholeDevice (g : NfiGeometry) : NfiPartition g where
  blockStart := 0
  blockEnd := BitVec.ofNat 32 (g.blocks - 1)
  blockTotal := 0
  ordered := by simp
  onChip := by
    have := g.blocks_le
    have := g.blocks_pos
    rw [BitVec.toNat_ofNat]
    omega

theorem wholeDevice_accepts {block : Nat} (named : g.Named block) :
    (wholeDevice g).blockBeyond (BitVec.ofNat 32 block) = false ∧
      (wholeDevice g).startBlock (BitVec.ofNat 32 block) = block := by
  have few := g.blocks_le
  have onChip := named.1
  have small : (BitVec.ofNat 32 block).toNat = block := by
    rw [BitVec.toNat_ofNat]
    omega
  constructor
  · simp only [NfiPartition.blockBeyond, wholeDevice, small, BitVec.toNat_ofNat,
      decide_eq_false_iff_not, Nat.not_lt]
    omega
  · rw [NfiPartition.startBlock, small, Nat.mod_eq_of_lt named.2]

theorem start_inv (page : Nat → Nat → Byte) {spare : Nat → Nat → Byte}
    (shown : ∀ block, g.Named block → Marked g spare block → Shown g spare block) :
    MarkerInv g (start g page spare) :=
  ⟨rfl, fun block _ => by simp [start, nfiStart], shown, fun made => by cases made⟩

theorem start_sound_iff (page spare : Nat → Nat → Byte) : MarkersSound g (start g page spare) ↔
    ∀ block, g.Named block → Marked g spare block → Shown g spare block := by
  constructor
  · intro sound block named marked
    obtain ⟨accepted, here⟩ := wholeDevice_accepts named
    by_contra lost
    apply not_sound_of_lost accepted _ _ sound
    · rw [here]
      exact decide_eq_true marked
    · rw [here]
      exact lost
  · intro shown
    exact (start_inv page shown).sound

/-- The marker byte of a page comes through exactly if it is 0xff or the page was programmed; and
in a run no marker is lost and no failed marking hidden exactly if the factory's markers are on
programmed pages and every step keeps the markers. -/
theorem markersSound_iff (g : NfiGeometry) :
    (∀ bytes, nfiNandReadOobHwecc bytes 0 = bytes 0 ↔ bytes 0 = 0xff ∨ Dirty bytes) ∧
      ∀ (page spare : Nat → Nat → Byte) (events : List (NfiEvent g)),
        (∀ before, before <+: events →
            MarkersSound g (before.foldl NfiHistory.step (start g page spare))) ↔
          (∀ block, g.Named block → Marked g spare block → Shown g spare block) ∧
            Runs.StepsMeet NfiHistory.step KeepsMarkers (start g page spare) events := by
  refine ⟨nfiNandReadOobHwecc_zero_iff, fun page spare events => ?_⟩
  have runs (shown : ∀ block, g.Named block → Marked g spare block → Shown g spare block) :=
    Runs.prefixes_hold_iff (MarkerInv g) (MarkersSound g) (fun _ => MarkerInv.sound)
      (fun _ e here => ⟨here.keepsMarkers e, fun good => (here.step e good).sound⟩)
      (fun _ e here good => here.step e good) (start_inv page shown) events
  constructor
  · intro sound
    have shown := (start_sound_iff page spare).mp (sound [] List.nil_prefix)
    exact ⟨shown, (runs shown).mp sound⟩
  · rintro ⟨shown, good⟩
    exact (runs shown).mpr good

theorem blank_mark_not_sound {dev : NfiPartition g} {chip : NfiChip} {block : U32}
    (page : Nat → Nat → Byte) (accepted : dev.blockBeyond block = false) :
    ¬MarkersSound g ((start g page fun _ _ => 0xff).step (.call dev chip (.markBadblock block) rfl)) := by
  have blank (b : Nat) : ¬Marked g (fun _ _ => 0xff) b := by
    rintro (other | ⟨-, other⟩)
    · exact other rfl
    · exact other rfl
  have clean : ¬Dirty fun _ => (0xff : Byte) := by decide
  intro sound
  rcases (start_inv page fun b _ marked => absurd marked (blank b)).keepsMarkers _ sound rfl accepted
    with shown | sticks
  · exact blank _ shown.marked
  · rcases sticks.dirty with dirty | ⟨-, dirty⟩
    · exact clean dirty
    · exact clean dirty

end NfiHistory

/-- A block as a factory marks it: zero in the first spare byte of its first page, blank elsewhere. -/
def factoryMark (page column : Nat) : Byte := if page = 320 ∧ column = 0 then 0 else 0xff

/-- A marker that the read blanks; the factory's block that the scan misses; and a marking of a
blank block, on a chip that works and on one that is protected. -/
theorem markers_not_sound :
    nfiNandReadOobHwecc (factoryMark 320) 0 ≠ factoryMark 320 0 ∧
      ¬NfiHistory.MarkersSound tc58nvg0s3e (NfiHistory.start tc58nvg0s3e (fun _ _ => 0xff) factoryMark) ∧
      ¬NfiHistory.MarkersSound tc58nvg0s3e ((NfiHistory.start tc58nvg0s3e (fun _ _ => 0xff) fun _ _ =>
        0xff).step (.call wholeChip eagerChip (.markBadblock 5) rfl)) ∧
      ¬NfiHistory.MarkersSound tc58nvg0s3e ((NfiHistory.start tc58nvg0s3e (fun _ _ => 0xff) fun _ _ =>
        0xff).step (.call wholeChip { eagerChip with wp := fun _ => true } (.markBadblock 5) rfl)) := by
  refine ⟨by decide, ?_, ?_, ?_⟩
  · intro sound
    have lost : ¬Shown tc58nvg0s3e factoryMark 5 := by decide
    exact lost ((NfiHistory.start_sound_iff _ _).mp sound 5 ⟨by decide, by decide⟩ (by decide))
  · exact NfiHistory.blank_mark_not_sound _ (by decide)
  · exact NfiHistory.blank_mark_not_sound _ (by decide)

end NuMakerMA35
