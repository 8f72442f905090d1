import NuMakerMA35.Nfi

namespace NuMakerMA35

namespace NfiGeometry

variable (g : NfiGeometry)

def pages : Nat := g.blocks * g.pagesPerBlock

def nextBlock (page : Nat) : Nat := (page / g.pagesPerBlock + 1) * g.pagesPerBlock

theorem writesize_pos : 0 < g.writesize := Nat.two_pow_pos _

theorem erasesize_pos : 0 < g.erasesize := Nat.two_pow_pos _

theorem erasesize_eq : g.erasesize = g.pagesPerBlock * g.writesize := by
  have h := g.pages_in_block
  exact (Nat.div_mul_cancel (Nat.pow_dvd_pow 2 (by omega))).symm

theorem size_eq : g.size = g.blocks * g.erasesize := by
  have h := g.blocks_in_chip
  exact (Nat.div_mul_cancel (Nat.pow_dvd_pow 2 (by omega))).symm

theorem blocks_le : g.blocks ≤ 2 ^ 24 := by
  have := g.row_fits
  have := g.pages_in_block
  have := g.blocks_in_chip
  unfold blocks size erasesize
  rw [Nat.pow_div (by omega) (by omega)]
  exact Nat.pow_le_pow_right (by omega) (by omega)

theorem blocks_pos : 0 < g.blocks :=
  Nat.div_pos (Nat.pow_le_pow_right (by omega) g.blocks_in_chip) (Nat.two_pow_pos _)

theorem word_eq : 2 ^ 32 = 2 ^ 32 / g.erasesize * g.erasesize := by
  have h := g.erase_fits
  exact (Nat.div_mul_cancel (Nat.pow_dvd_pow 2 (by omega))).symm

theorem pagesPerBlock_pos : 0 < g.pagesPerBlock := by
  have h := g.erasesize_pos
  rw [g.erasesize_eq] at h
  exact Nat.pos_of_mul_pos_right h

theorem one_lt_pagesPerBlock : 1 < g.pagesPerBlock := by
  have h := g.pages_in_block
  have more : g.writesize < g.erasesize := Nat.pow_lt_pow_right (by omega) h
  rw [g.erasesize_eq] at more
  by_contra few
  have one : g.pagesPerBlock = 1 := by have := g.pagesPerBlock_pos; omega
  rw [one] at more
  omega

theorem size_pages : g.size = g.pages * g.writesize := by
  rw [pages, g.size_eq, g.erasesize_eq, Nat.mul_assoc]

theorem offset_mod (s : Nat) : s * g.writesize % g.erasesize = s % g.pagesPerBlock * g.writesize := by
  rw [g.erasesize_eq, Nat.mul_mod_mul_right]

theorem offset_div (s : Nat) : s * g.writesize / g.erasesize = s / g.pagesPerBlock := by
  rw [g.erasesize_eq, Nat.mul_div_mul_right _ _ g.writesize_pos]

theorem lt_nextBlock (s : Nat) : s < g.nextBlock s := by
  have h := Nat.lt_div_mul_add (a := s) g.pagesPerBlock_pos
  unfold nextBlock
  rw [Nat.add_mul]
  omega

theorem nextBlock_div (s : Nat) : g.nextBlock s / g.pagesPerBlock = s / g.pagesPerBlock + 1 :=
  Nat.mul_div_cancel _ g.pagesPerBlock_pos

theorem same_block {s y : Nat} (low : s ≤ y) (high : y < g.nextBlock s) :
    y / g.pagesPerBlock = s / g.pagesPerBlock := by
  apply Nat.le_antisymm
  · exact Nat.le_of_lt_succ ((Nat.div_lt_iff_lt_mul g.pagesPerBlock_pos).mpr high)
  · exact Nat.div_le_div_right low

theorem block_rest (s : Nat) :
    g.erasesize - s * g.writesize % g.erasesize = (g.nextBlock s - s) * g.writesize := by
  have whole := Nat.div_add_mod s g.pagesPerBlock
  have rest : g.nextBlock s - s = g.pagesPerBlock - s % g.pagesPerBlock := by
    unfold nextBlock
    rw [Nat.add_mul, Nat.mul_comm (s / _)]
    omega
  rw [g.offset_mod, rest, Nat.sub_mul, ← g.erasesize_eq]

theorem next_offset (s : Nat) :
    s * g.writesize + (g.erasesize - s * g.writesize % g.erasesize) = g.nextBlock s * g.writesize := by
  rw [g.block_rest, ← Nat.add_mul, Nat.add_sub_cancel' (g.lt_nextBlock s).le]

theorem nextBlock_le_pages {s : Nat} (h : s < g.pages) : g.nextBlock s ≤ g.pages := by
  have inside : s / g.pagesPerBlock < g.blocks := (Nat.div_lt_iff_lt_mul g.pagesPerBlock_pos).mpr h
  exact Nat.mul_le_mul_right _ inside

theorem pagesOf_le_iff {len k : Nat} : g.pagesOf len ≤ k ↔ len ≤ k * g.writesize := by
  have positive := g.writesize_pos
  unfold pagesOf
  rw [← Nat.lt_succ_iff, Nat.div_lt_iff_lt_mul positive, Nat.succ_mul]
  omega

theorem le_pagesOf_mul (len : Nat) : len ≤ g.pagesOf len * g.writesize := g.pagesOf_le_iff.mp le_rfl

@[simp] theorem pagesOf_zero : g.pagesOf 0 = 0 := by
  have h := (@pagesOf_le_iff g 0 0).mpr (by omega)
  omega

theorem pagesOf_pos {len : Nat} (h : 0 < len) : 0 < g.pagesOf len := by
  by_contra zero
  have := g.pagesOf_le_iff.mp (show g.pagesOf len ≤ 0 by omega)
  omega

theorem pagesOf_sub (len k : Nat) : g.pagesOf (len - k * g.writesize) = g.pagesOf len - k := by
  apply Nat.le_antisymm
  · rw [pagesOf_le_iff]
    have h := g.le_pagesOf_mul len
    rw [Nat.sub_mul]
    omega
  · have h := g.le_pagesOf_mul (len - k * g.writesize)
    have all : g.pagesOf len ≤ g.pagesOf (len - k * g.writesize) + k := by
      rw [pagesOf_le_iff, Nat.add_mul]
      omega
    omega

theorem pagesOf_mul (k : Nat) : g.pagesOf (k * g.writesize) = k := by
  have upTo : g.pagesOf (k * g.writesize) ≤ k := g.pagesOf_le_iff.mpr le_rfl
  have back := g.le_pagesOf_mul (k * g.writesize)
  exact Nat.le_antisymm upTo (Nat.le_of_mul_le_mul_right back g.writesize_pos)

end NfiGeometry

/-- A page kept in the data buffer is kept as it is on the chip. -/
def NfiFlash.Coherent (f : NfiFlash) : Prop := ∀ x, f.pagebuf = some x → f.databuf = f.page x

/-- `t` comes from `s` by the commands `new`: pages and spare bytes change only where one of them
says so, spare bits are only cleared unless the block is erased, a programmed page leaves the first
spare byte, and the data buffer stays right. -/
structure NfiBecomes (g : NfiGeometry) (s : NfiFlash) (new : List NfiTouch) (t : NfiFlash) : Prop where
  touched : t.touched = s.touched ++ new
  bbt : t.bbt = s.bbt
  page : ∀ x, .program x ∉ new → .erase (x / g.pagesPerBlock) ∉ new → t.page x = s.page x
  spare : ∀ x, .program x ∉ new → .programSpare x ∉ new → .erase (x / g.pagesPerBlock) ∉ new →
    t.spare x = s.spare x
  cleared : ∀ x, .erase (x / g.pagesPerBlock) ∉ new → ∀ c, t.spare x c = s.spare x c &&& t.spare x c
  marker : ∀ x, .programSpare x ∉ new → .erase (x / g.pagesPerBlock) ∉ new → t.spare x 0 = s.spare x 0
  coherent : s.Coherent → t.Coherent

namespace NfiBecomes

variable {g : NfiGeometry} {s t u : NfiFlash} {first second : List NfiTouch}

theorem refl (s : NfiFlash) : NfiBecomes g s [] s where
  touched := by simp
  bbt := rfl
  page _ _ _ := rfl
  spare _ _ _ _ := rfl
  cleared _ _ _ := by simp
  marker _ _ _ := rfl
  coherent h := h

theorem trans (h : NfiBecomes g s first t) (h' : NfiBecomes g t second u) :
    NfiBecomes g s (first ++ second) u where
  touched := by rw [h'.touched, h.touched, List.append_assoc]
  bbt := h'.bbt.trans h.bbt
  page x noProgram noErase := by
    simp only [List.mem_append, not_or] at noProgram noErase
    exact (h'.page x noProgram.2 noErase.2).trans (h.page x noProgram.1 noErase.1)
  spare x noProgram noSpare noErase := by
    simp only [List.mem_append, not_or] at noProgram noSpare noErase
    exact (h'.spare x noProgram.2 noSpare.2 noErase.2).trans
      (h.spare x noProgram.1 noSpare.1 noErase.1)
  cleared x noErase c := by
    simp only [List.mem_append, not_or] at noErase
    have before := h.cleared x noErase.1 c
    have after := h'.cleared x noErase.2 c
    calc u.spare x c = t.spare x c &&& u.spare x c := after
      _ = (s.spare x c &&& t.spare x c) &&& u.spare x c := by rw [← before]
      _ = s.spare x c &&& (t.spare x c &&& u.spare x c) := BitVec.and_assoc ..
      _ = s.spare x c &&& u.spare x c := by rw [← after]
  marker x noSpare noErase := by
    simp only [List.mem_append, not_or] at noSpare noErase
    exact (h'.marker x noSpare.2 noErase.2).trans (h.marker x noSpare.1 noErase.1)
  coherent right := h'.coherent (h.coherent right)

theorem unique (h : NfiBecomes g s first t) (h' : NfiBecomes g s second t) : first = second :=
  List.append_cancel_left (h.touched.symm.trans h'.touched)

theorem sameTable (h : NfiBecomes g s first t) : NfiBecomes g s first { t with bbt := s.bbt } :=
  ⟨h.touched, rfl, h.page, h.spare, h.cleared, h.marker, h.coherent⟩

theorem otherTable {bbt : Nat → Bool} (h : NfiBecomes g t second { u with bbt := t.bbt }) :
    NfiBecomes g { t with bbt := bbt } second { u with bbt := bbt } :=
  ⟨h.touched, rfl, h.page, h.spare, h.cleared, h.marker, h.coherent⟩

theorem dropPagebuf (s : NfiFlash) (databuf : Nat → Byte) :
    NfiBecomes g s [] { s with pagebuf := none, databuf := databuf } where
  touched := by simp
  bbt := rfl
  page _ _ _ := rfl
  spare _ _ _ _ := rfl
  cleared _ _ _ := by simp
  marker _ _ _ := rfl
  coherent _ := by
    intro x kept
    cases kept

theorem invalidate (s : NfiFlash) (stale : Nat → Bool) : NfiBecomes g s [] (s.invalidate stale) := by
  unfold NfiFlash.invalidate
  split_ifs
  · exact dropPagebuf s s.databuf
  · exact refl s

end NfiBecomes

theorem NfiFlash.not_stale {f : NfiFlash} {stale : Nat → Bool} {x : Nat}
    (kept : (f.invalidate stale).pagebuf = some x) : stale x = false := by
  unfold NfiFlash.invalidate at kept
  split_ifs at kept with any
  rw [kept, Option.any_some] at any
  simpa using any

section Frames

variable (g : NfiGeometry) (chip : NfiChip)

theorem nfiWrittenSpare_zero (bytes : Nat → Byte) : nfiWrittenSpare g chip bytes 0 = 0xff := by
  have room := g.spare_fits
  unfold nfiWrittenSpare
  rw [if_neg (by omega), if_pos (by omega)]

theorem nandWritePage_becomes (page : Nat) (bytes : Nat → Byte) {f : NfiFlash}
    (free : f.pagebuf ≠ some page) :
    NfiBecomes g f [.program page] (nandWritePage g chip page bytes f).2 := by
  unfold nandWritePage NfiFlash.touch
  dsimp only
  split_ifs
  · exact ⟨rfl, rfl, fun _ _ _ => rfl, fun _ _ _ _ => rfl, fun _ _ _ => by simp,
      fun _ _ _ => rfl, fun h => h⟩
  · refine ⟨rfl, rfl, ?_, ?_, ?_, ?_, ?_⟩
    · intro x other _
      exact Function.update_of_ne (by simpa using other) _ _
    · intro x other _ _
      exact Function.update_of_ne (by simpa using other) _ _
    · intro x _ c
      dsimp only
      by_cases same : x = page
      · subst same
        rw [Function.update_self, ← BitVec.and_assoc, BitVec.and_self]
      · rw [Function.update_of_ne same, BitVec.and_self]
    · intro x _ _
      dsimp only
      by_cases same : x = page
      · subst same
        rw [Function.update_self, nfiWrittenSpare_zero]
        exact BitVec.and_allOnes
      · rw [Function.update_of_ne same]
    · intro right x kept
      have other : x ≠ page := by
        intro same
        exact free (same ▸ kept)
      exact (right x kept).trans (Function.update_of_ne other _ _).symm

theorem nandWriteOobStd_becomes (page : Nat) (oob : Nat → Byte) (f : NfiFlash) :
    NfiBecomes g f [.programSpare page] (nandWriteOobStd chip page oob f).2 := by
  unfold nandWriteOobStd NfiFlash.touch
  dsimp only
  split_ifs
  · exact ⟨rfl, rfl, fun _ _ _ => rfl, fun _ _ _ _ => rfl, fun _ _ _ => by simp,
      fun _ _ _ => rfl, fun h => h⟩
  · refine ⟨rfl, rfl, fun _ _ _ => rfl, ?_, ?_, ?_, fun h => h⟩
    · intro x _ other _
      exact Function.update_of_ne (by simpa using other) _ _
    · intro x _ c
      dsimp only
      by_cases same : x = page
      · subst same
        rw [Function.update_self, ← BitVec.and_assoc, BitVec.and_self]
      · rw [Function.update_of_ne same, BitVec.and_self]
    · intro x other _
      dsimp only
      rw [Function.update_of_ne (by simpa using other)]

theorem singleErase_becomes (block : Nat) {f : NfiFlash}
    (free : ∀ x, f.pagebuf = some x → x / g.pagesPerBlock ≠ block) :
    NfiBecomes g f [.erase block] (singleErase g chip block f).2 := by
  unfold singleErase NfiFlash.touch
  dsimp only
  split_ifs
  · exact ⟨rfl, rfl, fun _ _ _ => rfl, fun _ _ _ _ => rfl, fun _ _ _ => by simp,
      fun _ _ _ => rfl, fun h => h⟩
  · have elsewhere : ∀ x, NfiTouch.erase (x / g.pagesPerBlock) ∉ [NfiTouch.erase block] →
        x / g.pagesPerBlock ≠ block := by
      intro x outside
      simpa using outside
    refine ⟨rfl, rfl, ?_, ?_, ?_, ?_, ?_⟩
    · intro x _ outside
      exact if_neg (elsewhere x outside)
    · intro x _ _ outside
      exact if_neg (elsewhere x outside)
    · intro x outside c
      dsimp only
      rw [if_neg (elsewhere x outside), BitVec.and_self]
    · intro x _ outside
      dsimp only
      rw [if_neg (elsewhere x outside)]
    · intro right x kept
      dsimp only
      rw [if_neg (free x kept)]
      exact right x kept

theorem nandEraseNand_becomes (scrub : Bool) (addr : Nat) (f : NfiFlash) :
    ∃ new, NfiBecomes g f new (nandEraseNand g chip scrub addr f).2 ∧
      ∀ t ∈ new, t = .erase (addr / g.erasesize) := by
  unfold nandEraseNand
  split_ifs with unaligned wp refused
  · exact ⟨[], .refl f, by simp⟩
  · exact ⟨[], .refl f, by simp⟩
  · exact ⟨[], .refl f, by simp⟩
  · have aligned : addr = addr / g.erasesize * g.erasesize := by
      have := Nat.div_add_mod addr g.erasesize
      rw [Nat.mul_comm] at this
      omega
    have firstPage : addr / g.writesize = addr / g.erasesize * g.pagesPerBlock := by
      conv_lhs => rw [aligned, g.erasesize_eq, ← Nat.mul_assoc, ← g.erasesize_eq]
      exact Nat.mul_div_cancel _ g.writesize_pos
    refine ⟨_, (NfiBecomes.invalidate f _).trans (singleErase_becomes g chip _ ?_), by simp⟩
    intro x kept same
    have stale := NfiFlash.not_stale kept
    have low := Nat.div_mul_le_self x g.pagesPerBlock
    have high := Nat.lt_div_mul_add (a := x) g.pagesPerBlock_pos
    rw [firstPage, ← same] at stale
    simp [low, high] at stale

theorem mtdErase_becomes (addr : Nat) (f : NfiFlash) :
    ∃ new, NfiBecomes g f new (mtdErase g chip addr f).2 ∧
      ∀ t ∈ new, t = .erase (addr / g.erasesize) := by
  unfold mtdErase
  split_ifs
  · exact ⟨[], .refl f, by simp⟩
  · exact nandEraseNand_becomes g chip _ addr f

/-- The chip carries out every command; what `scrub` holds stays open. -/
structure NfiChip.Reliable (chip : NfiChip) : Prop where
  wp : ∀ log, chip.wp log = false
  read : ∀ log page, chip.readFails log page = false
  program : ∀ log, chip.programFails log = false
  erase : ∀ log, chip.eraseFails log = false

theorem nandEraseNand_reliable (reliable : chip.Reliable) {scrub : Bool} (block : Nat) (f : NfiFlash)
    (free : scrub = true ∨ f.bbt block = false) :
    (nandEraseNand g chip scrub (block * g.erasesize) f).1 = 0 ∧
      (nandEraseNand g chip scrub (block * g.erasesize) f).2.touched = f.touched ++ [.erase block] ∧
      ∀ x, x / g.pagesPerBlock = block →
        (nandEraseNand g chip scrub (block * g.erasesize) f).2.page x = fun _ => 0xff := by
  have dropped := (NfiBecomes.invalidate (g := g) f fun cached =>
    decide (block * g.erasesize / g.writesize ≤ cached) &&
      decide (cached < block * g.erasesize / g.writesize + g.pagesPerBlock)).touched
  rw [List.append_nil] at dropped
  have allowed : (!scrub && f.bbt block) = false := by
    rcases free with on | good
    · simp [on]
    · simp [good]
  unfold nandEraseNand
  rw [if_neg (by simp), if_neg (by simp [reliable.wp]), Nat.mul_div_cancel _ g.erasesize_pos,
    if_neg (by simp [allowed])]
  simp only [singleErase, NfiFlash.touch, reliable.erase, Bool.false_eq_true, ↓reduceIte]
  refine ⟨trivial, by rw [dropped], ?_⟩
  intro x same
  rw [if_pos same]

def NfiGeometry.storedBytes (content : Nat → Nat → Byte) : Nat → Nat → Nat → List Byte
  | 0, _, _ => []
  | turns + 1, page, len =>
    (List.range (min g.writesize len)).map (content page) ++
      storedBytes content turns (page + 1) (len - min g.writesize len)

theorem storedBytes_congr {content content' : Nat → Nat → Byte} {turns page : Nat} (len : Nat)
    (same : ∀ x, page ≤ x → x < page + turns → content x = content' x) :
    g.storedBytes content turns page len = g.storedBytes content' turns page len := by
  induction turns generalizing page len with
  | zero => rfl
  | succ turns ih =>
    simp only [NfiGeometry.storedBytes]
    rw [same page (by omega) (by omega), ih _ fun x low high => same x (by omega) (by omega)]

theorem mem_storedBytes {content : Nat → Nat → Byte} {turns page len x c : Nat} (low : page ≤ x)
    (high : x < page + turns) (column : c < g.writesize) (read : (x - page) * g.writesize + c < len) :
    content x c ∈ g.storedBytes content turns page len := by
  induction turns generalizing page len with
  | zero => omega
  | succ turns ih =>
    have positive := g.writesize_pos
    simp only [NfiGeometry.storedBytes]
    rcases Nat.eq_or_lt_of_le low with here | later
    · subst here
      apply List.mem_append_left
      rw [Nat.sub_self, Nat.zero_mul] at read
      exact List.mem_map_of_mem (List.mem_range.mpr (by omega))
    · apply List.mem_append_right
      apply ih (by omega) (by omega)
      have step : x - page = x - (page + 1) + 1 := by omega
      rw [step, Nat.add_mul] at read
      omega

theorem eq_of_mem_storedBytes {content : Nat → Nat → Byte} {turns page len : Nat} {b : Byte}
    (inside : b ∈ g.storedBytes content turns page len) : ∃ x c, b = content x c := by
  induction turns generalizing page len with
  | zero => cases inside
  | succ turns ih =>
    simp only [NfiGeometry.storedBytes, List.mem_append, List.mem_map] at inside
    rcases inside with ⟨c, -, same⟩ | later
    · exact ⟨page, c, same.symm⟩
    · exact ih later

theorem nandReadTurn_becomes (realpage bytes : Nat) (f : NfiFlash) :
    NfiBecomes g f [] (nandReadTurn g chip realpage bytes f).2.2 := by
  unfold nandReadTurn
  dsimp only
  split_ifs with cached aligned failed
  · exact .refl f
  · exact .refl f
  · exact .dropPagebuf f _
  · refine ⟨by simp, rfl, fun _ _ _ => rfl, fun _ _ _ _ => rfl, fun _ _ _ => by simp,
      fun _ _ _ => rfl, ?_⟩
    intro _ x kept
    rw [← Option.some.inj kept]

theorem nandReadTurn_bytes (realpage bytes : Nat) {f : NfiFlash} (right : f.Coherent) :
    (nandReadTurn g chip realpage bytes f).2.1 = (List.range bytes).map (f.page realpage) := by
  unfold nandReadTurn
  by_cases cached : f.pagebuf = some realpage
  · rw [if_pos cached, right realpage cached]
  · rw [if_neg cached]
    split_ifs <;> rfl

theorem nandDoReadOps_becomes (turns realpage readlen : Nat) (f : NfiFlash) :
    NfiBecomes g f [] (nandDoReadOps g chip turns realpage readlen f).2.2 := by
  induction turns generalizing realpage readlen f with
  | zero => exact .refl f
  | succ turns ih =>
    have first := nandReadTurn_becomes g chip realpage (min g.writesize readlen) f
    exact first.trans (ih _ _ _)

theorem NfiBecomes.page_eq {s t : NfiFlash} {g : NfiGeometry} (h : NfiBecomes g s [] t) :
    t.page = s.page := funext fun x => h.page x (by simp) (by simp)

theorem nandDoReadOps_bytes (turns realpage readlen : Nat) {f : NfiFlash} (right : f.Coherent) :
    (nandDoReadOps g chip turns realpage readlen f).2.1 =
      g.storedBytes f.page turns realpage readlen := by
  induction turns generalizing realpage readlen f with
  | zero => rfl
  | succ turns ih =>
    have first := nandReadTurn_becomes g chip realpage (min g.writesize readlen) f
    have rest := ih (realpage + 1) (readlen - min g.writesize readlen) (first.coherent right)
    have own := nandReadTurn_bytes g chip realpage (min g.writesize readlen) right
    rw [first.page_eq] at rest
    simp only [nandDoReadOps, NfiGeometry.storedBytes]
    rw [own, rest]

theorem nandDoReadOps_reliable (reliable : chip.Reliable) (turns realpage readlen : Nat)
    (f : NfiFlash) : (nandDoReadOps g chip turns realpage readlen f).1 = false := by
  induction turns generalizing realpage readlen f with
  | zero => rfl
  | succ turns ih =>
    have own : (nandReadTurn g chip realpage (min g.writesize readlen) f).1 = false := by
      unfold nandReadTurn
      by_cases cached : f.pagebuf = some realpage
      · rw [if_pos cached]
      · rw [if_neg cached]
        dsimp only
        split_ifs <;> exact reliable.read _ _
    simp only [nandDoReadOps]
    rw [own, ih]
    rfl

theorem nandReadTurn_length (realpage bytes : Nat) (f : NfiFlash) :
    (nandReadTurn g chip realpage bytes f).2.1.length = bytes := by
  unfold nandReadTurn
  by_cases cached : f.pagebuf = some realpage
  · rw [if_pos cached]
    simp
  · rw [if_neg cached]
    dsimp only
    split_ifs <;> simp

theorem nandDoReadOps_length {turns realpage readlen : Nat} (f : NfiFlash)
    (enough : readlen ≤ turns * g.writesize) :
    (nandDoReadOps g chip turns realpage readlen f).2.1.length = readlen := by
  induction turns generalizing realpage readlen f with
  | zero =>
    simp only [nandDoReadOps, List.length_nil]
    omega
  | succ turns ih =>
    rw [Nat.add_mul] at enough
    simp only [nandDoReadOps, List.length_append]
    rw [nandReadTurn_length, ih _ (by omega)]
    omega

theorem mtdRead_length {start len : Nat} {f : NfiFlash} (done : (mtdRead g chip start len f).1 = 0) :
    (mtdRead g chip start len f).2.1.length = len := by
  unfold mtdRead at done ⊢
  split_ifs at done ⊢ with beyond empty
  · cases done
  · rw [empty]
    rfl
  · exact nandDoReadOps_length g chip f (g.le_pagesOf_mul len)

theorem mtdRead_becomes (start len : Nat) (f : NfiFlash) :
    NfiBecomes g f [] (mtdRead g chip start len f).2.2 := by
  unfold mtdRead
  split_ifs
  · exact .refl f
  · exact .refl f
  · exact nandDoReadOps_becomes g chip _ _ _ f

theorem mtdRead_reliable (reliable : chip.Reliable) (page : Nat) {len : Nat} (some : 0 < len)
    {f : NfiFlash} (right : f.Coherent) :
    ((mtdRead g chip (page * g.writesize) len f).1, (mtdRead g chip (page * g.writesize) len f).2.1) =
      if page * g.writesize + len ≤ g.size then
        (0, g.storedBytes f.page (g.pagesOf len) page len)
      else (-nandEinval, []) := by
  unfold mtdRead
  by_cases inside : page * g.writesize + len ≤ g.size
  · rw [if_neg (by omega), if_neg (by omega), if_pos inside]
    dsimp only
    rw [Nat.mul_div_cancel _ g.writesize_pos, nandDoReadOps_bytes g chip _ _ _ right,
      nandDoReadOps_reliable g chip reliable]
    rfl
  · rw [if_pos (by omega), if_neg inside]

theorem bounceBuffer_becomes (buf : List Byte) (f : NfiFlash) :
    NfiBecomes g f [] (if buf.length < g.writesize then
      { f with pagebuf := none, databuf := pageFill g buf } else f) := by
  split_ifs
  · exact .dropPagebuf f _
  · exact .refl f

theorem nandDoWriteLoop_becomes (turns page : Nat) (buf : List Byte) {f : NfiFlash}
    (free : ∀ x, f.pagebuf = some x → x < page ∨ page + turns ≤ x) :
    ∃ new, NfiBecomes g f new (nandDoWriteLoop g chip turns page buf f).2 ∧
      ∀ t ∈ new, ∃ x, t = .program x ∧ page ≤ x ∧ x < page + turns := by
  induction turns generalizing page buf f with
  | zero => exact ⟨[], .refl f, by simp⟩
  | succ turns ih =>
    have filled := bounceBuffer_becomes g buf f
    generalize eq : (if buf.length < g.writesize then
      { f with pagebuf := none, databuf := pageFill g buf } else f) = f' at filled
    have free' : ∀ x, f'.pagebuf = some x → x < page ∨ page + (turns + 1) ≤ x := by
      intro x kept
      rw [← eq] at kept
      split_ifs at kept
      exact free x kept
    have programmed := nandWritePage_becomes g chip page (pageFill g buf) (f := f') (by
      intro kept
      have := free' page kept
      omega)
    have still : (nandWritePage g chip page (pageFill g buf) f').2.pagebuf = f'.pagebuf := by
      unfold nandWritePage NfiFlash.touch
      dsimp only
      split_ifs <;> rfl
    simp only [nandDoWriteLoop, eq]
    split_ifs with failed
    · refine ⟨_, filled.trans programmed, ?_⟩
      intro t inside
      rw [List.nil_append, List.mem_singleton] at inside
      exact ⟨page, inside, by omega, by omega⟩
    · obtain ⟨new, rest, only⟩ := ih (page + 1) (buf.drop g.writesize)
        (f := (nandWritePage g chip page (pageFill g buf) f').2) (by
          intro x kept
          have := free' x (still ▸ kept)
          omega)
      refine ⟨_, (filled.trans programmed).trans rest, ?_⟩
      intro t inside
      rcases List.mem_append.mp inside with here | later
      · rw [List.nil_append, List.mem_singleton] at here
        exact ⟨page, here, by omega, by omega⟩
      · obtain ⟨x, same, low, high⟩ := only t later
        exact ⟨x, same, by omega, by omega⟩

theorem nandDoWriteLoop_reliable (reliable : chip.Reliable) (turns page : Nat) (buf : List Byte)
    {f : NfiFlash} (free : ∀ x, f.pagebuf = some x → x < page ∨ page + turns ≤ x) :
    (nandDoWriteLoop g chip turns page buf f).1 = 0 ∧
      ∃ new, (nandDoWriteLoop g chip turns page buf f).2.touched = f.touched ++ new ∧
        ∀ i, i < turns → .program (page + i) ∈ new ∧
          (nandDoWriteLoop g chip turns page buf f).2.page (page + i) =
            fun c => f.page (page + i) c &&& pageFill g (buf.drop (i * g.writesize)) c := by
  induction turns generalizing page buf f with
  | zero => exact ⟨rfl, [], by simp [nandDoWriteLoop], by simp⟩
  | succ turns ih =>
    have filled := bounceBuffer_becomes g buf f
    generalize eq : (if buf.length < g.writesize then
      { f with pagebuf := none, databuf := pageFill g buf } else f) = f' at filled
    have free' : ∀ x, f'.pagebuf = some x → x < page ∨ page + (turns + 1) ≤ x := by
      intro x kept
      rw [← eq] at kept
      split_ifs at kept
      exact free x kept
    obtain ⟨programmed, done, logged, content, still⟩ : ∃ programmed,
        nandWritePage g chip page (pageFill g buf) f' = (0, programmed) ∧
          programmed.touched = f'.touched ++ [.program page] ∧
          programmed.page = Function.update f.page page (fun c => f.page page c &&& pageFill g buf c) ∧
          programmed.pagebuf = f'.pagebuf := by
      rw [← filled.page_eq]
      simp only [nandWritePage, NfiFlash.touch, reliable.program, Bool.false_eq_true, ↓reduceIte]
      exact ⟨_, rfl, rfl, rfl, rfl⟩
    have later : ∀ x, programmed.pagebuf = some x → x < page + 1 ∨ page + 1 + turns ≤ x := by
      intro x kept
      have := free' x (still ▸ kept)
      omega
    obtain ⟨result, new, rest, each⟩ := ih (page + 1) (buf.drop g.writesize) later
    obtain ⟨_, frame, only⟩ := nandDoWriteLoop_becomes g chip turns (page + 1)
      (buf.drop g.writesize) later
    simp only [nandDoWriteLoop, eq, done, ne_eq, not_true_eq_false, ↓reduceIte]
    refine ⟨result, .program page :: new, ?_, ?_⟩
    · rw [rest, logged, filled.touched]
      simp
    · intro i bound
      cases i with
      | zero =>
        have kept := frame.page page (by
            intro inside
            obtain ⟨x, same, low, -⟩ := only _ inside
            cases same
            omega) (by
            intro inside
            obtain ⟨x, same, -⟩ := only _ inside
            cases same)
        refine ⟨by simp, ?_⟩
        rw [content, Function.update_self] at kept
        simpa only [Nat.add_zero, Nat.zero_mul, List.drop_zero] using kept
      | succ i =>
        obtain ⟨inside, here⟩ := each i (by omega)
        rw [Nat.add_right_comm] at inside here
        refine ⟨List.mem_cons_of_mem _ inside, ?_⟩
        rw [← Nat.add_assoc, here, content, Function.update_of_ne (by omega), List.drop_drop, Nat.add_mul i 1,
          Nat.one_mul, Nat.add_comm g.writesize]

theorem storedBytes_fill {content : Nat → Nat → Byte} {turns page : Nat} {buf : List Byte}
    (enough : buf.length ≤ turns * g.writesize)
    (holds : ∀ i, i < turns → ∀ c, c < g.writesize →
      content (page + i) c = pageFill g (buf.drop (i * g.writesize)) c) :
    g.storedBytes content turns page buf.length = buf := by
  induction turns generalizing page buf with
  | zero => exact (List.eq_nil_of_length_eq_zero (by omega)).symm
  | succ turns ih =>
    have first := holds 0 (by omega)
    rw [Nat.add_zero, Nat.zero_mul, List.drop_zero] at first
    have rest : g.storedBytes content turns (page + 1) (buf.drop g.writesize).length =
        buf.drop g.writesize := by
      apply ih
      · rw [List.length_drop]
        rw [Nat.add_mul] at enough
        omega
      · intro i bound c column
        rw [Nat.add_assoc, Nat.add_comm 1, holds (i + 1) (by omega) c column, List.drop_drop, Nat.add_mul i 1,
          Nat.one_mul, Nat.add_comm g.writesize]
    have front : (List.range (min g.writesize buf.length)).map (content page) =
        buf.take g.writesize := by
      apply List.ext_getElem
      · simp
      · intro c bound bound'
        have column : c < g.writesize := by
          rw [List.length_take] at bound'
          omega
        simp only [List.getElem_map, List.getElem_range, first c column, pageFill,
          List.getD_eq_getElem?_getD]
        rw [List.getElem?_eq_getElem bound', Option.getD_some]
    have left : buf.length - min g.writesize buf.length = (buf.drop g.writesize).length := by
      rw [List.length_drop]
      omega
    simp only [NfiGeometry.storedBytes]
    rw [front, left, rest, List.take_append_drop]

theorem free_of_invalidate {f : NfiFlash} {page len x : Nat}
    (kept : (f.invalidate fun cached => decide (page * g.writesize ≤ cached * g.writesize) &&
      decide (cached * g.writesize < page * g.writesize + len)).pagebuf = some x) :
    x < page ∨ page + g.pagesOf len ≤ x := by
  have stale := NfiFlash.not_stale kept
  simp only [Bool.and_eq_false_iff, decide_eq_false_iff_not, not_le, not_lt] at stale
  rcases stale with before | behind
  · exact .inl (Nat.lt_of_mul_lt_mul_right before)
  · have room : len ≤ (x - page) * g.writesize := by
      rw [Nat.sub_mul]
      omega
    have := g.pagesOf_le_iff.mpr room
    by_cases low : x < page
    · exact .inl low
    · exact .inr (by omega)

theorem mtdWrite_becomes (page : Nat) (buf : List Byte) (f : NfiFlash) :
    ∃ new, NfiBecomes g f new (mtdWrite g chip (page * g.writesize) buf f).2 ∧
      ∀ t ∈ new, ∃ x, t = .program x ∧ page ≤ x ∧ x < page + g.pagesOf buf.length ∧
        page * g.writesize + buf.length ≤ g.size := by
  unfold mtdWrite
  split_ifs with beyond empty unaligned wp
  · exact ⟨[], .refl f, by simp⟩
  · exact ⟨[], .refl f, by simp⟩
  · exact ⟨[], .refl f, by simp⟩
  · exact ⟨[], .refl f, by simp⟩
  · dsimp only
    rw [Nat.mul_div_cancel _ g.writesize_pos]
    obtain ⟨new, rest, only⟩ := nandDoWriteLoop_becomes g chip (g.pagesOf buf.length) page buf
      fun x kept => free_of_invalidate g kept
    refine ⟨_, (NfiBecomes.invalidate f _).trans rest, ?_⟩
    intro t inside
    obtain ⟨x, same, low, high⟩ := only t (by simpa using inside)
    exact ⟨x, same, low, high, by omega⟩

theorem mtdWrite_reliable (reliable : chip.Reliable) {page : Nat} {buf : List Byte} (f : NfiFlash)
    (some : buf ≠ []) (inside : page * g.writesize + buf.length ≤ g.size) :
    (mtdWrite g chip (page * g.writesize) buf f).1 = 0 ∧
      ∃ new, NfiBecomes g f new (mtdWrite g chip (page * g.writesize) buf f).2 ∧
        (∀ t ∈ new, ∃ i, t = .program (page + i) ∧ i < g.pagesOf buf.length) ∧
        ∀ i, i < g.pagesOf buf.length → .program (page + i) ∈ new ∧
          (mtdWrite g chip (page * g.writesize) buf f).2.page (page + i) =
            fun c => f.page (page + i) c &&& pageFill g (buf.drop (i * g.writesize)) c := by
  obtain ⟨new, became, only⟩ := mtdWrite_becomes g chip page buf f
  have own : ∀ t ∈ new, ∃ i, t = .program (page + i) ∧ i < g.pagesOf buf.length := by
    intro t inside
    obtain ⟨x, same, low, high, -⟩ := only t inside
    exact ⟨x - page, by rw [same, Nat.add_sub_cancel' low], by omega⟩
  suffices loop : (mtdWrite g chip (page * g.writesize) buf f).1 = 0 ∧
      ∃ new, (mtdWrite g chip (page * g.writesize) buf f).2.touched = f.touched ++ new ∧
        ∀ i, i < g.pagesOf buf.length → .program (page + i) ∈ new ∧
          (mtdWrite g chip (page * g.writesize) buf f).2.page (page + i) =
            fun c => f.page (page + i) c &&& pageFill g (buf.drop (i * g.writesize)) c by
    obtain ⟨result, new', grown, each⟩ := loop
    have same : new' = new := List.append_cancel_left (grown.symm.trans became.touched)
    subst same
    exact ⟨result, new', became, own, each⟩
  unfold mtdWrite
  rw [if_neg (by omega), if_neg some, if_neg (by simp), if_neg (by simp [reliable.wp])]
  dsimp only
  rw [Nat.mul_div_cancel _ g.writesize_pos]
  have invalidated := NfiBecomes.invalidate (g := g) f fun cached =>
    page * g.writesize ≤ cached * g.writesize &&
      cached * g.writesize < page * g.writesize + buf.length
  have dropped := invalidated.touched
  rw [List.append_nil] at dropped
  rw [← dropped, ← invalidated.page_eq]
  exact nandDoWriteLoop_reliable g chip reliable _ page buf fun x kept => free_of_invalidate g kept

theorem nandDoWriteOob_becomes (page : Nat) (f : NfiFlash) :
    ∃ new, NfiBecomes g f new (nandDoWriteOob g chip (page * g.writesize) f).2 ∧
      ∀ t ∈ new, t = .programSpare page := by
  unfold nandDoWriteOob
  split_ifs
  · exact ⟨[], .refl f, by simp⟩
  · exact ⟨[], .refl f, by simp⟩
  · rw [Nat.mul_div_cancel _ g.writesize_pos]
    exact ⟨_, (NfiBecomes.invalidate f _).trans (nandWriteOobStd_becomes g chip page _ _), by simp⟩

def NfiGeometry.markerPage (block : Nat) : Nat :=
  if g.scanlastpage then block * g.pagesPerBlock + (g.pagesPerBlock - 1) else block * g.pagesPerBlock

theorem NfiGeometry.markerPage_offset (block : Nat) :
    (if g.scanlastpage then block * g.erasesize + (g.erasesize - g.writesize)
      else block * g.erasesize) = g.markerPage block * g.writesize := by
  unfold NfiGeometry.markerPage
  split_ifs
  · rw [Nat.add_mul, Nat.sub_mul, Nat.one_mul, Nat.mul_assoc, ← g.erasesize_eq]
  · rw [Nat.mul_assoc, ← g.erasesize_eq]

theorem NfiGeometry.markerPage_div (block : Nat) :
    g.markerPage block / g.pagesPerBlock = block ∧
      (g.scan2ndpage = true → (g.markerPage block + 1) / g.pagesPerBlock = block) := by
  have more := g.one_lt_pagesPerBlock
  have inside {j : Nat} (h : j < g.pagesPerBlock) :
      (block * g.pagesPerBlock + j) / g.pagesPerBlock = block := by
    rw [Nat.add_comm, Nat.add_mul_div_right _ _ g.pagesPerBlock_pos, Nat.div_eq_of_lt h,
      Nat.zero_add]
  unfold NfiGeometry.markerPage
  refine ⟨?_, ?_⟩
  · split_ifs
    · exact inside (by omega)
    · exact inside (j := 0) (by omega)
  · intro second
    rw [if_neg (by simp [g.one_scan second])]
    exact inside more

theorem nandDefaultBlockMarkbad_becomes (block : Nat) (f : NfiFlash) :
    ∃ new, NfiBecomes g f new (nandDefaultBlockMarkbad g chip (block * g.erasesize) f).2 ∧
      ∀ t ∈ new, ∃ x, t = .programSpare x ∧ x / g.pagesPerBlock = block := by
  obtain ⟨here, next⟩ := g.markerPage_div block
  obtain ⟨first, became, only⟩ := nandDoWriteOob_becomes g chip (g.markerPage block) f
  unfold nandDefaultBlockMarkbad
  dsimp only
  rw [g.markerPage_offset]
  by_cases second : g.scan2ndpage = true
  · rw [if_pos second]
    obtain ⟨later, became', only'⟩ := nandDoWriteOob_becomes g chip (g.markerPage block + 1)
      (nandDoWriteOob g chip (g.markerPage block * g.writesize) f).2
    rw [Nat.succ_mul] at became'
    refine ⟨first ++ later, became.trans became', ?_⟩
    intro t inside
    rcases List.mem_append.mp inside with early | late
    · exact ⟨_, only t early, here⟩
    · exact ⟨_, only' t late, next second⟩
  · rw [if_neg second]
    exact ⟨first, became, fun t inside => ⟨_, only t inside, here⟩⟩

theorem mtdBlockMarkbad_becomes (block : Nat) (f : NfiFlash) :
    ∃ new, NfiBecomes g f new
        { (mtdBlockMarkbad g chip (block * g.erasesize) f).2 with bbt := f.bbt } ∧
      ∀ t ∈ new, f.bbt block = false ∧
        (t = .erase block ∨ ∃ x, t = .programSpare x ∧ x / g.pagesPerBlock = block) := by
  unfold mtdBlockMarkbad
  rw [Nat.mul_div_cancel _ g.erasesize_pos]
  split_ifs with beyond bad
  · exact ⟨[], .refl f, by simp⟩
  · exact ⟨[], .refl f, by simp⟩
  · obtain ⟨first, became, only⟩ := nandEraseNand_becomes g chip false (block * g.erasesize) f
    obtain ⟨later, became', only'⟩ := nandDefaultBlockMarkbad_becomes g chip block
      (nandEraseNand g chip false (block * g.erasesize) f).2
    rw [Nat.mul_div_cancel _ g.erasesize_pos] at only
    have whole := became.trans became'
    refine ⟨first ++ later, ⟨whole.touched, rfl, whole.page, whole.spare, whole.cleared,
      whole.marker, whole.coherent⟩, ?_⟩
    intro t inside
    refine ⟨by simpa using bad, ?_⟩
    rcases List.mem_append.mp inside with early | late
    · exact .inl (only t early)
    · exact .inr (only' t late)

end Frames

end NuMakerMA35
