import NuMakerMA35.NfiStore

namespace NuMakerMA35

def NfiTouch.block (g : NfiGeometry) : NfiTouch → Nat
  | .program page => page / g.pagesPerBlock
  | .programSpare page => page / g.pagesPerBlock
  | .erase block => block

/-- The MTD operations of a partition device, and the commands that erase all of it. -/
inductive NfiOp where
  | readPage (page : U32) (dataLen : Nat)
  | writePage (page : U32) (data : List Byte)
  | movePage (srcPage dstPage : U32)
  | eraseBlock (block : U32)
  | checkBlock (block : U32)
  | markBadblock (block : U32)
  | eraseAll
  | eraseForce

/-- The chip before the first operation: any contents, any bad blocks found by the scan. -/
def nfiStart (page spare : Nat → Nat → Byte) (bbt : Nat → Bool) : NfiFlash where
  page := page
  spare := spare
  bbt := bbt
  pagebuf := none
  databuf _ := 0
  touched := []

namespace NfiPartition

variable {g : NfiGeometry} (dev : NfiPartition g)

def call (chip : NfiChip) (f : NfiFlash) : NfiOp → Option Int × NfiFlash
  | .readPage page dataLen =>
    let (result, _, f) := dev.readPage chip page dataLen f
    (result, f)
  | .writePage page data => dev.writePage chip page data f
  | .movePage srcPage dstPage => dev.movePage chip srcPage dstPage f
  | .eraseBlock block =>
    let (result, f) := dev.eraseBlock chip block f
    (some result, f)
  | .checkBlock block => (some (dev.checkBlock block f), f)
  | .markBadblock block =>
    let (result, f) := dev.markBadblock chip block f
    (some result, f)
  | .eraseAll => (some 0, dev.nfineraseAll chip f)
  | .eraseForce => (some 0, dev.nfineraseForce chip f)

/-- Operations in order, the chip behaving differently at each; one that never returns is the last. -/
def run : List (NfiChip × NfiOp) → NfiFlash → NfiFlash
  | [], f => f
  | (chip, op) :: rest, f =>
    match dev.call chip f op with
    | (none, f) => f
    | (some _, f) => run rest f

def Inside (block : Nat) : Prop := dev.blockStart.toNat ≤ block ∧ block ≤ dev.blockEnd.toNat

/-- All that a run programs or erases lies in the partition. -/
def Confined (steps : List (NfiChip × NfiOp)) (f : NfiFlash) : Prop :=
  ∀ t ∈ (dev.run steps f).touched.drop f.touched.length, dev.Inside (t.block g)

/-- A sequence of operations keeps to the partition, however the chip behaves at each of them. -/
def Isolated (f : NfiFlash) (ops : List NfiOp) : Prop :=
  ∀ steps : List (NfiChip × NfiOp), steps.map Prod.snd = ops → dev.Confined steps f

def StaysInside (bbt : Nat → Bool) : NfiOp → Prop
  | .readPage _ _ | .checkBlock _ => True
  | .writePage page data => dev.pageBeyond page = false →
    ∀ x, g.Visits bbt (dev.startPage page) data.length x → dev.Inside (x / g.pagesPerBlock)
  | .movePage srcPage dstPage => dev.pageBeyond srcPage = false ∧ dev.pageBeyond dstPage = false →
    (∃ y, g.Visits bbt (dev.startPage srcPage) g.writesize y) →
      ∀ x, g.Visits bbt (dev.startPage dstPage) g.writesize x → dev.Inside (x / g.pagesPerBlock)
  | .eraseBlock block => dev.blockBeyond block = false →
    dev.blockStart.toNat ≤ dev.startBlock block
  | .markBadblock block => dev.blockBeyond block = false → bbt (dev.startBlock block) = false →
    dev.blockStart.toNat ≤ dev.startBlock block
  | .eraseAll => dev.blockTotal = 0 ∨ dev.blockStart = 0
  | .eraseForce => dev.blockStart = 0 ∨ dev.blockEnd.toNat < 2 ^ 32 / g.erasesize

def StepsStayInside : List (NfiChip × NfiOp) → NfiFlash → Prop
  | [], _ => True
  | (chip, op) :: rest, f => dev.StaysInside f.bbt op ∧
    ((dev.call chip f op).1 ≠ none → StepsStayInside rest (dev.call chip f op).2)

variable {dev}

theorem startBlock_le (block : U32) : dev.startBlock block ≤ block.toNat := Nat.mod_le _ _

theorem upTo_of_accepted {block : U32} (accepted : dev.blockBeyond block = false) :
    block.toNat ≤ dev.blockEnd.toNat := by
  simpa [blockBeyond] using accepted

theorem blockEnd_lt : dev.blockEnd.toNat < 2 ^ 24 := dev.onChip.trans_le g.blocks_le

theorem startBlock_eq {block : U32} (small : block.toNat < 2 ^ 32 / g.erasesize) :
    dev.startBlock block = block.toNat := Nat.mod_eq_of_lt small

theorem inside_of_accepted {block : U32} (accepted : dev.blockBeyond block = false)
    (low : dev.blockStart.toNat ≤ dev.startBlock block) : dev.Inside (dev.startBlock block) :=
  ⟨low, (startBlock_le block).trans (upTo_of_accepted accepted)⟩

theorem eraseEach_becomes (chip : NfiChip) (indices : List Nat) (f : NfiFlash) :
    ∃ new, NfiBecomes g f new
        (indices.foldl (fun f index => (dev.eraseBlock chip (BitVec.ofNat 32 index) f).2) f) ∧
      ∀ t ∈ new, ∃ i ∈ indices, t = .erase (dev.startBlock (BitVec.ofNat 32 i)) ∧
        dev.blockBeyond (BitVec.ofNat 32 i) = false := by
  induction indices generalizing f with
  | nil => exact ⟨[], .refl f, by simp⟩
  | cons i rest ih =>
    obtain ⟨first, became, only⟩ := @eraseBlock_becomes g dev chip (BitVec.ofNat 32 i) f
    obtain ⟨later, became', only'⟩ := ih (dev.eraseBlock chip (BitVec.ofNat 32 i) f).2
    refine ⟨first ++ later, became.trans became', ?_⟩
    intro t inside
    rcases List.mem_append.mp inside with early | late
    · exact ⟨i, List.mem_cons_self, only t early⟩
    · obtain ⟨j, listed, same⟩ := only' t late
      exact ⟨j, List.mem_cons_of_mem i listed, same⟩

theorem eraseForceLoop_becomes (chip : NfiChip) (blocks : List Nat) (f : NfiFlash) :
    ∃ new, NfiBecomes g f new (dev.eraseForceLoop chip blocks f) ∧
      ∀ t ∈ new, ∃ i ∈ blocks, t = .erase (dev.startBlock (BitVec.ofNat 32 i + dev.blockStart)) ∧
        dev.blockBeyond (BitVec.ofNat 32 i + dev.blockStart) = false := by
  induction blocks generalizing f with
  | nil => exact ⟨[], .refl f, by simp⟩
  | cons i rest ih =>
    obtain ⟨first, became, only⟩ :=
      @eraseBlock_becomes g dev chip (BitVec.ofNat 32 i + dev.blockStart) f
    simp only [eraseForceLoop]
    split_ifs with failed
    · exact ⟨first, became, fun t inside => ⟨i, List.mem_cons_self, only t inside⟩⟩
    · obtain ⟨later, became', only'⟩ :=
        ih (dev.eraseBlock chip (BitVec.ofNat 32 i + dev.blockStart) f).2
      refine ⟨first ++ later, became.trans became', ?_⟩
      intro t inside
      rcases List.mem_append.mp inside with early | late
      · exact ⟨i, List.mem_cons_self, only t early⟩
      · obtain ⟨j, listed, same⟩ := only' t late
        exact ⟨j, List.mem_cons_of_mem i listed, same⟩

theorem forced_toNat {i : Nat} (small : i ≤ dev.blockEnd.toNat) :
    (BitVec.ofNat 32 i + dev.blockStart).toNat = i + dev.blockStart.toNat := by
  have last := dev.blockEnd_lt
  have ordered : dev.blockStart.toNat ≤ dev.blockEnd.toNat := BitVec.le_def.mp dev.ordered
  rw [BitVec.toNat_add, BitVec.toNat_ofNat]
  omega

theorem call_becomes (chip : NfiChip) (f : NfiFlash) (op : NfiOp) :
    ∃ new, NfiBecomes g f new { (dev.call chip f op).2 with bbt := f.bbt } ∧
      (dev.StaysInside f.bbt op → ∀ t ∈ new, dev.Inside (t.block g)) := by
  cases op with
  | readPage page dataLen =>
    have same : NfiBecomes g f [] (dev.readPage chip page dataLen f).2.2 := by
      unfold readPage
      split_ifs
      · exact .refl f
      · exact .refl f
      · rw [pageOffset_eq]
        exact nandReadSkipBad_becomes g chip _ _ f
    exact ⟨[], same.sameTable, by simp⟩
  | writePage page data =>
    obtain ⟨new, became, only⟩ := @writePage_becomes g dev chip page data f
    refine ⟨new, became.sameTable, ?_⟩
    intro safe t inside
    obtain ⟨x, rfl, accepted, visited⟩ := only t inside
    exact safe accepted x visited
  | movePage srcPage dstPage =>
    obtain ⟨new, became, only⟩ := @movePage_becomes g dev chip srcPage dstPage f
    refine ⟨new, became.sameTable, ?_⟩
    intro safe t inside
    obtain ⟨x, rfl, accepted, read, visited⟩ := only t inside
    exact safe accepted read x visited
  | eraseBlock block =>
    obtain ⟨new, became, only⟩ := @eraseBlock_becomes g dev chip block f
    refine ⟨new, became.sameTable, ?_⟩
    intro safe t inside
    obtain ⟨rfl, accepted⟩ := only t inside
    exact inside_of_accepted accepted (safe accepted)
  | checkBlock block => exact ⟨[], .refl f, by simp⟩
  | markBadblock block =>
    simp only [call, markBadblock]
    split_ifs with beyond
    · exact ⟨[], .refl f, by simp⟩
    rw [Bool.not_eq_true] at beyond
    rw [blockOffset_eq]
    obtain ⟨new, became, only⟩ := mtdBlockMarkbad_becomes g chip (dev.startBlock block) f
    refine ⟨new, became, ?_⟩
    intro safe t inside
    obtain ⟨good, here⟩ := only t inside
    have place : t.block g = dev.startBlock block := by
      rcases here with rfl | ⟨x, rfl, same⟩
      · rfl
      · exact same
    rw [place]
    exact inside_of_accepted beyond (safe beyond good)
  | eraseAll =>
    obtain ⟨new, became, only⟩ :=
      @eraseEach_becomes g dev chip (List.range dev.blockTotal.toNat) f
    refine ⟨new, became.sameTable, ?_⟩
    intro safe t inside
    obtain ⟨i, listed, rfl, accepted⟩ := only t inside
    have some : dev.blockTotal ≠ 0 := by
      intro zero
      rw [zero] at listed
      cases listed
    have first : dev.blockStart = 0 := safe.resolve_left some
    exact inside_of_accepted accepted (by simp [first])
  | eraseForce =>
    obtain ⟨new, became, only⟩ :=
      @eraseForceLoop_becomes g dev chip (List.range (dev.blockEnd.toNat + 1)) f
    refine ⟨new, became.sameTable, ?_⟩
    intro safe t inside
    obtain ⟨i, listed, rfl, accepted⟩ := only t inside
    have upTo := upTo_of_accepted accepted
    have sum := @forced_toNat g dev i (Nat.le_of_lt_succ (List.mem_range.mp listed))
    apply inside_of_accepted accepted
    rcases safe with first | small
    · simp [first]
    · rw [startBlock_eq (by omega), sum]
      omega

theorem run_of_returned {chip : NfiChip} {f : NfiFlash} {op : NfiOp}
    (returned : (dev.call chip f op).1 ≠ none) (rest : List (NfiChip × NfiOp)) :
    dev.run ((chip, op) :: rest) f = dev.run rest (dev.call chip f op).2 := by
  cases eq : dev.call chip f op with
  | mk result f' =>
    cases result with
    | none => exact absurd (by rw [eq]) returned
    | some result => simp only [run, eq]

theorem run_of_hung {chip : NfiChip} {f : NfiFlash} {op : NfiOp}
    (hung : (dev.call chip f op).1 = none) (rest : List (NfiChip × NfiOp)) :
    dev.run ((chip, op) :: rest) f = (dev.call chip f op).2 := by
  cases eq : dev.call chip f op with
  | mk result f' =>
    rw [eq] at hung
    cases hung
    simp only [run, eq]

theorem run_becomes (steps : List (NfiChip × NfiOp)) (f : NfiFlash) :
    ∃ new, NfiBecomes g f new { (dev.run steps f) with bbt := f.bbt } ∧
      (dev.StepsStayInside steps f → ∀ t ∈ new, dev.Inside (t.block g)) := by
  induction steps generalizing f with
  | nil => exact ⟨[], .refl f, by simp⟩
  | cons step rest ih =>
    obtain ⟨chip, op⟩ := step
    obtain ⟨first, became, stays⟩ := @call_becomes g dev chip f op
    by_cases hung : (dev.call chip f op).1 = none
    · rw [run_of_hung hung]
      exact ⟨first, became, fun safe => stays safe.1⟩
    · rw [run_of_returned hung]
      obtain ⟨second, became', stays'⟩ := ih (dev.call chip f op).2
      refine ⟨first ++ second, became.trans became'.otherTable, ?_⟩
      intro safe t inside
      rcases List.mem_append.mp inside with early | late
      · exact stays safe.1 t early
      · exact stays' (safe.2 hung) t late

theorem run_touched (steps : List (NfiChip × NfiOp)) (f : NfiFlash) :
    ∃ new, (dev.run steps f).touched = f.touched ++ new :=
  let ⟨new, became, _⟩ := run_becomes steps f
  ⟨new, became.touched⟩

theorem confined_of_stepsStayInside (steps : List (NfiChip × NfiOp)) (f : NfiFlash)
    (safe : dev.StepsStayInside steps f) : dev.Confined steps f := by
  obtain ⟨new, became, stays⟩ := @run_becomes g dev steps f
  have touched : (dev.run steps f).touched = f.touched ++ new := became.touched
  intro t inside
  rw [touched, List.drop_left] at inside
  exact stays safe t inside

/-- Pages and spare bytes of every other partition stay as they are. -/
theorem run_keeps_others {other : NfiPartition g} (steps : List (NfiChip × NfiOp)) (f : NfiFlash)
    (disjoint : dev.blockEnd < other.blockStart ∨ other.blockEnd < dev.blockStart)
    (safe : dev.StepsStayInside steps f) {x : Nat} (theirs : other.Inside (x / g.pagesPerBlock)) :
    (dev.run steps f).page x = f.page x ∧ (dev.run steps f).spare x = f.spare x := by
  obtain ⟨new, became, stays⟩ := @run_becomes g dev steps f
  have foreign : ∀ t ∈ new, t.block g ≠ x / g.pagesPerBlock := by
    intro t inside same
    obtain ⟨low, high⟩ := stays safe t inside
    obtain ⟨low', high'⟩ := theirs
    rw [BitVec.lt_def, BitVec.lt_def] at disjoint
    omega
  have noProgram : .program x ∉ new := fun inside => foreign _ inside rfl
  have noSpare : .programSpare x ∉ new := fun inside => foreign _ inside rfl
  have noErase : .erase (x / g.pagesPerBlock) ∉ new := fun inside => foreign _ inside rfl
  exact ⟨became.page x noProgram noErase, became.spare x noProgram noSpare noErase⟩

theorem movePage_programs {chip : NfiChip} (reliable : chip.Reliable) {srcPage dstPage : U32} {x y : Nat}
    {f : NfiFlash} (right : f.Coherent)
    (accepted : dev.pageBeyond srcPage = false ∧ dev.pageBeyond dstPage = false)
    (read : g.Visits f.bbt (dev.startPage srcPage) g.writesize y)
    (visited : g.Visits f.bbt (dev.startPage dstPage) g.writesize x) :
    ∃ new, NfiBecomes g f new (dev.movePage chip srcPage dstPage f).2 ∧ .program x ∈ new := by
  unfold movePage
  rw [if_neg (by simp [accepted]), pageOffset_eq, pageOffset_eq]
  have done := nandReadSkipBad_page g chip reliable right read
  have became := nandReadSkipBad_becomes g chip (dev.startPage srcPage) g.writesize f
  have full := nandReadSkipBad_length g chip done
  cases eq : nandReadSkipBad g chip (dev.startPage srcPage * g.writesize) g.writesize f with
  | mk ret rest =>
    obtain ⟨pageBuf, f'⟩ := rest
    rw [eq] at done became full
    dsimp only at done became full
    subst done
    have some : pageBuf ≠ [] := by
      intro none
      rw [none] at full
      exact visited.some full.symm
    obtain ⟨new, became', all, -⟩ :=
      nandWriteSkipBad_reliable g chip reliable (dev.startPage dstPage) f' some
    rw [became.bbt, full] at all
    dsimp only
    rw [if_neg (by simp)]
    exact ⟨new, by simpa using became.trans became', all x visited⟩

theorem markBadblock_erases {chip : NfiChip} (reliable : chip.Reliable) {block : U32} {f : NfiFlash}
    (accepted : dev.blockBeyond block = false) (good : f.bbt (dev.startBlock block) = false) :
    ∃ new, (dev.markBadblock chip block f).2.touched = f.touched ++ new ∧
      .erase (dev.startBlock block) ∈ new := by
  have onChip : dev.startBlock block * g.erasesize ≤ g.size := by
    rw [g.size_eq]
    exact Nat.mul_le_mul_right _ (startBlock_lt accepted).le
  obtain ⟨-, touched, -⟩ := nandEraseNand_reliable g chip reliable (dev.startBlock block) f (.inr good)
  obtain ⟨later, became, -⟩ := nandDefaultBlockMarkbad_becomes g chip (dev.startBlock block)
    (nandEraseNand g chip false (dev.startBlock block * g.erasesize) f).2
  refine ⟨[.erase (dev.startBlock block)] ++ later, ?_, by simp⟩
  have whole := became.touched
  rw [touched, List.append_assoc] at whole
  simp only [markBadblock, accepted, Bool.false_eq_true, ↓reduceIte, mtdBlockMarkbad, blockOffset_eq,
    Nat.mul_div_cancel _ g.erasesize_pos, good]
  rw [if_neg (by omega)]
  exact whole

theorem eraseForceLoop_erases {chip : NfiChip} (reliable : chip.Reliable)
    (scrub : ∀ log, chip.scrub log = true) (i : Nat) (before rest : List Nat) (f : NfiFlash)
    (accepted : ∀ j ∈ before ++ [i], dev.blockBeyond (BitVec.ofNat 32 j + dev.blockStart) = false) :
    ∃ new, NfiBecomes g f new (dev.eraseForceLoop chip (before ++ i :: rest) f) ∧
      .erase (dev.startBlock (BitVec.ofNat 32 i + dev.blockStart)) ∈ new := by
  induction before generalizing f with
  | nil =>
    obtain ⟨done, touched, -⟩ := eraseBlock_erases reliable scrub f (accepted i (by simp))
    obtain ⟨first, became, -⟩ :=
      @eraseBlock_becomes g dev chip (BitVec.ofNat 32 i + dev.blockStart) f
    obtain ⟨later, became', -⟩ := @eraseForceLoop_becomes g dev chip rest
      (dev.eraseBlock chip (BitVec.ofNat 32 i + dev.blockStart) f).2
    have first_eq := List.append_cancel_left (became.touched.symm.trans touched)
    simp only [List.nil_append, eraseForceLoop, done]
    rw [if_neg (by simp)]
    exact ⟨first ++ later, became.trans became', by simp [first_eq]⟩
  | cons j before ih =>
    obtain ⟨done, -⟩ := eraseBlock_erases reliable scrub f (accepted j (by simp))
    obtain ⟨first, became, -⟩ :=
      @eraseBlock_becomes g dev chip (BitVec.ofNat 32 j + dev.blockStart) f
    obtain ⟨later, became', listed⟩ := ih (dev.eraseBlock chip (BitVec.ofNat 32 j + dev.blockStart) f).2
      fun k inside => accepted k (List.mem_cons_of_mem j inside)
    simp only [List.cons_append, eraseForceLoop, done]
    rw [if_neg (by simp)]
    exact ⟨first ++ later, became.trans became', List.mem_append_right first listed⟩

theorem nfineraseForce_erases {chip : NfiChip} (reliable : chip.Reliable)
    (scrub : ∀ log, chip.scrub log = true) (f : NfiFlash) {i : Nat}
    (accepted : i + dev.blockStart.toNat ≤ dev.blockEnd.toNat) :
    ∃ new, NfiBecomes g f new (dev.nfineraseForce chip f) ∧
      .erase ((i + dev.blockStart.toNat) % (2 ^ 32 / g.erasesize)) ∈ new := by
  obtain ⟨before, rest, eq⟩ := List.append_of_mem (List.mem_range.mpr (by omega : i < dev.blockEnd.toNat + 1))
  have sorted := List.pairwise_lt_range (n := dev.blockEnd.toNat + 1)
  rw [eq] at sorted
  have upTo : ∀ j ∈ before ++ [i], j ≤ i := by
    intro j inside
    rcases List.mem_append.mp inside with earlier | last
    · exact ((List.pairwise_append.mp sorted).2.2 j earlier i List.mem_cons_self).le
    · exact (List.mem_singleton.mp last).le
  have here := @eraseForceLoop_erases g dev chip reliable scrub i before rest f fun j inside => by
    have small := upTo j inside
    have sum := @forced_toNat g dev j (by omega)
    simp only [blockBeyond, decide_eq_false_iff_not, Nat.not_lt]
    omega
  rw [← eq, startBlock, forced_toNat (by omega)] at here
  exact here

theorem call_exceeds {f : NfiFlash} (right : f.Coherent) {op : NfiOp}
    (leaves : ¬dev.StaysInside f.bbt op) :
    ∃ new, (dev.call eagerChip f op).2.touched = f.touched ++ new ∧
      ∃ t ∈ new, ¬dev.Inside (t.block g) := by
  have scrub : ∀ log, eagerChip.scrub log = true := fun _ => rfl
  cases op with
  | readPage page dataLen => exact absurd trivial leaves
  | checkBlock block => exact absurd trivial leaves
  | writePage page data =>
    simp only [StaysInside, not_forall] at leaves
    obtain ⟨accepted, x, visited, outside⟩ := leaves
    have some : data ≠ [] := by
      intro none
      exact visited.some (by simp [none])
    obtain ⟨new, became, all, -⟩ := writePage_programs eagerChip_reliable f accepted some
    exact ⟨new, became.touched, .program x, all x visited, outside⟩
  | movePage srcPage dstPage =>
    simp only [StaysInside, not_forall] at leaves
    obtain ⟨accepted, ⟨y, read⟩, x, visited, outside⟩ := leaves
    obtain ⟨new, became, listed⟩ := movePage_programs eagerChip_reliable right accepted read visited
    exact ⟨new, became.touched, .program x, listed, outside⟩
  | eraseBlock block =>
    simp only [StaysInside, not_forall] at leaves
    obtain ⟨accepted, low⟩ := leaves
    obtain ⟨-, touched, -⟩ := eraseBlock_erases eagerChip_reliable scrub f accepted
    exact ⟨_, touched, _, List.mem_singleton_self _, fun inside => low inside.1⟩
  | markBadblock block =>
    simp only [StaysInside, not_forall] at leaves
    obtain ⟨accepted, good, low⟩ := leaves
    obtain ⟨new, touched, listed⟩ := markBadblock_erases eagerChip_reliable accepted good
    exact ⟨new, touched, _, listed, fun inside => low inside.1⟩
  | eraseAll =>
    simp only [StaysInside, not_or] at leaves
    obtain ⟨some, notFirst⟩ := leaves
    have accepted : dev.blockBeyond 0 = false := by simp [blockBeyond]
    obtain ⟨-, touched, -⟩ := eraseBlock_erases eagerChip_reliable scrub f accepted
    obtain ⟨n, count⟩ : ∃ n, dev.blockTotal.toNat = n + 1 :=
      Nat.exists_eq_succ_of_ne_zero fun zero => some (BitVec.eq_of_toNat_eq zero)
    obtain ⟨later, became, -⟩ := @eraseEach_becomes g dev eagerChip
      ((List.range n).map Nat.succ) (dev.eraseBlock eagerChip 0 f).2
    refine ⟨[.erase (dev.startBlock 0)] ++ later, ?_, .erase (dev.startBlock 0), by simp, ?_⟩
    · rw [← List.append_assoc, ← touched, ← became.touched]
      simp only [call, nfineraseAll, count, List.range_succ_eq_map, List.foldl_cons]
      rfl
    · intro inside
      have zero : dev.blockStart.toNat ≤ 0 := inside.1.trans (by simp [startBlock, NfiTouch.block])
      exact notFirst (BitVec.eq_of_toNat_eq (by simpa using zero))
  | eraseForce =>
    simp only [StaysInside, not_or, not_lt] at leaves
    obtain ⟨notFirst, far⟩ := leaves
    have positive : 0 < dev.blockStart.toNat :=
      BitVec.toNat_pos_of_ne_zero notFirst
    have ordered : dev.blockStart.toNat ≤ dev.blockEnd.toNat := BitVec.le_def.mp dev.ordered
    -- the first block whose number does not fit comes to block 0; before that all is well
    obtain ⟨i, accepted, wrapped⟩ : ∃ i, i + dev.blockStart.toNat ≤ dev.blockEnd.toNat ∧
        (i + dev.blockStart.toNat) % (2 ^ 32 / g.erasesize) < dev.blockStart.toNat := by
      by_cases beyond : 2 ^ 32 / g.erasesize ≤ dev.blockStart.toNat
      · have some : 0 < 2 ^ 32 / g.erasesize := Nat.pos_of_ne_zero fun zero => by
          have word := g.word_eq
          rw [zero, Nat.zero_mul] at word
          cases word
        refine ⟨0, by omega, ?_⟩
        rw [Nat.zero_add]
        exact (Nat.mod_lt _ some).trans_le beyond
      · refine ⟨2 ^ 32 / g.erasesize - dev.blockStart.toNat, by omega, ?_⟩
        rw [Nat.sub_add_cancel (by omega), Nat.mod_self]
        exact positive
    obtain ⟨new, became, listed⟩ := nfineraseForce_erases eagerChip_reliable scrub f accepted
    exact ⟨new, became.touched, _, listed, fun inside => by
      have low : _ ≤ _ := inside.1
      exact absurd (low.trans_lt wrapped) (lt_irrefl _)⟩

theorem run_touches_first {chip : NfiChip} {f : NfiFlash} {op : NfiOp} {new : List NfiTouch}
    (touched : (dev.call chip f op).2.touched = f.touched ++ new) (rest : List (NfiChip × NfiOp)) :
    ∃ later, (dev.run ((chip, op) :: rest) f).touched = f.touched ++ (new ++ later) := by
  by_cases hung : (dev.call chip f op).1 = none
  · exact ⟨[], by rw [run_of_hung hung, touched, List.append_nil]⟩
  · obtain ⟨later, more⟩ := @run_touched g dev rest (dev.call chip f op).2
    exact ⟨later, by rw [run_of_returned hung, more, touched, List.append_assoc]⟩

theorem stepsStayInside_of_isolated (steps : List (NfiChip × NfiOp)) {f : NfiFlash}
    (right : f.Coherent) (isolated : dev.Isolated f (steps.map Prod.snd)) :
    dev.StepsStayInside steps f := by
  induction steps generalizing f with
  | nil => trivial
  | cons step rest ih =>
    obtain ⟨chip, op⟩ := step
    constructor
    · by_contra leaves
      obtain ⟨new, touched, t, listed, outside⟩ := call_exceeds right leaves
      obtain ⟨later, whole⟩ := run_touches_first touched rest
      apply outside
      apply isolated ((eagerChip, op) :: rest) rfl t
      rw [whole, List.drop_left]
      exact List.mem_append_left later listed
    · intro returned
      obtain ⟨first, became, -⟩ := @call_becomes g dev chip f op
      have touched : (dev.call chip f op).2.touched = f.touched ++ first := became.touched
      have right' : (dev.call chip f op).2.Coherent := became.coherent right
      apply ih right'
      intro steps same t inside
      obtain ⟨later, more⟩ := @run_touched g dev steps (dev.call chip f op).2
      rw [more, List.drop_left] at inside
      apply isolated ((chip, op) :: steps) (by simp [same]) t
      rw [run_of_returned returned, more, touched, List.append_assoc, List.drop_left]
      exact List.mem_append_right first inside

theorem nfiStart_coherent (page spare : Nat → Nat → Byte) (bbt : Nat → Bool) :
    (nfiStart page spare bbt).Coherent := by
  intro x kept
  cases kept

/-- A run whose operations all stay inside keeps to the partition, and a sequence of operations
is isolated exactly if in all its runs every operation that is reached stays inside. -/
theorem nfi_isolated_iff (page spare : Nat → Nat → Byte) (bbt : Nat → Bool) :
    (∀ steps, dev.StepsStayInside steps (nfiStart page spare bbt) →
        dev.Confined steps (nfiStart page spare bbt)) ∧
      ∀ ops, dev.Isolated (nfiStart page spare bbt) ops ↔
        ∀ steps : List (NfiChip × NfiOp), steps.map Prod.snd = ops →
          dev.StepsStayInside steps (nfiStart page spare bbt) := by
  refine ⟨fun steps => confined_of_stepsStayInside steps _, fun ops => ⟨?_, ?_⟩⟩
  · intro isolated steps same
    subst same
    exact stepsStayInside_of_isolated steps (nfiStart_coherent page spare bbt) isolated
  · intro safe steps same
    exact confined_of_stepsStayInside steps _ (safe steps same)

/-- On a chip of up to 4 GiB a write that starts inside stays inside exactly if the good blocks up
to the last one have room for it. -/
theorem staysInside_write_iff (small : g.size ≤ 2 ^ 32) {bbt : Nat → Bool} {page : U32}
    {data : List Byte} (accepted : dev.pageBeyond page = false)
    (first : dev.blockStart.toNat * g.pagesPerBlock ≤ dev.startPage page)
    (fits : (checkSkipLen g bbt (dev.startPage page * g.writesize) data.length).1 ≠ -1) :
    dev.StaysInside bbt (.writePage page data) ↔
      SkipWalk.usableBefore (g.usable bbt) (dev.startPage page) + g.pagesOf data.length ≤
        SkipWalk.usableBefore (g.usable bbt) ((dev.blockEnd.toNat + 1) * g.pagesPerBlock) := by
  have last (x : Nat) : x / g.pagesPerBlock ≤ dev.blockEnd.toNat ↔
      x < (dev.blockEnd.toNat + 1) * g.pagesPerBlock := by
    rw [← Nat.lt_succ_iff, Nat.div_lt_iff_lt_mul g.pagesPerBlock_pos]
  have upTo : (dev.blockEnd.toNat + 1) * g.pagesPerBlock ≤ g.pages := Nat.mul_le_mul_right _ dev.onChip
  have order : dev.startPage page ≤ (dev.blockEnd.toNat + 1) * g.pagesPerBlock := by
    have inside : page.toNat / g.pagesPerBlock ≤ dev.blockEnd.toNat := by simpa [pageBeyond] using accepted
    exact (Nat.mod_le _ _).trans ((last _).mp inside).le
  by_cases more : ∃ y, (dev.blockEnd.toNat + 1) * g.pagesPerBlock ≤ y ∧ y < g.pages ∧ g.usable bbt y = true
  swap
  · -- no good page lies behind on the chip, so that the length that passed has found room before
    have none : ∀ y, (dev.blockEnd.toNat + 1) * g.pagesPerBlock ≤ y → y < g.pages → g.usable bbt y = false := by
      intro y low high
      by_contra good
      exact more ⟨y, low, high, by simpa using good⟩
    have room := g.checkSkipLoop_room small (order.trans upTo) fits
    have count := @SkipWalk.usableBefore_skip (g.usable bbt) ((dev.blockEnd.toNat + 1) * g.pagesPerBlock)
      (g.pages - (dev.blockEnd.toNat + 1) * g.pagesPerBlock) fun y low high => none y low (by omega)
    rw [Nat.add_sub_cancel' upTo] at count
    rw [count, Nat.sub_zero] at room
    refine iff_of_true ?_ room
    intro _ x visited
    obtain ⟨onChip, -, after, here, -⟩ := (g.visits_iff small).mp visited
    refine ⟨(Nat.le_div_iff_mul_le g.pagesPerBlock_pos).mpr (first.trans after), (last x).mpr ?_⟩
    by_contra beyond
    rw [none x (by omega) onChip] at here
    cases here
  obtain ⟨y, behind, onChip, good⟩ := more
  rw [← SkipWalk.reaches_below_iff order behind good]
  constructor
  · intro safe x upTo reached
    have visited := (g.visits_iff small).mpr ⟨by omega, fits, reached⟩
    exact (last x).mp (safe accepted x visited).2
  · intro below _ x visited
    obtain ⟨-, -, reached⟩ := (g.visits_iff small).mp visited
    have low : dev.blockStart.toNat ≤ x / g.pagesPerBlock :=
      (Nat.le_div_iff_mul_le g.pagesPerBlock_pos).mpr (first.trans reached.1)
    refine ⟨low, (last x).mpr ?_⟩
    by_cases near : x ≤ y
    · exact below x near reached
    · have room := (SkipWalk.reaches_below_iff order behind good).mp below
      have := @SkipWalk.usableBefore_mono (g.usable bbt) _ x (behind.trans (Nat.le_of_not_le near))
      have := reached.2.2
      omega

end NfiPartition

def lowerHalf : NfiPartition tc58nvg0s3e where
  blockStart := 0
  blockEnd := 511
  blockTotal := 512
  ordered := by decide
  onChip := by decide

def upperHalf : NfiPartition tc58nvg0s3e where
  blockStart := 512
  blockEnd := 1023
  blockTotal := 512
  ordered := by decide
  onChip := tc58nvg0s3e_last

/-- Erasing the lower half in both ways leaves the first page of the upper half. -/
theorem lowerHalf_keeps_upper :
    let start := nfiStart (fun _ _ => 0x5a) (fun _ _ => 0xff) wornBlock
    let left := lowerHalf.run [(eagerChip, .eraseAll), (eagerChip, .eraseForce)] start
    left.page 32768 = start.page 32768 ∧ left.spare 32768 = start.spare 32768 := by
  intro start
  have safe : lowerHalf.StepsStayInside [(eagerChip, .eraseAll), (eagerChip, .eraseForce)] start :=
    ⟨.inr rfl, fun _ => ⟨.inl rfl, fun _ => trivial⟩⟩
  have theirs : upperHalf.Inside (32768 / tc58nvg0s3e.pagesPerBlock) := ⟨by decide, by decide⟩
  exact NfiPartition.run_keeps_others _ start (.inl (by decide)) safe theirs

theorem stays_in_lowerHalf : lowerHalf.StaysInside wornBlock (.writePage 63 [0, 1]) ↔
    SkipWalk.usableBefore (tc58nvg0s3e.usable wornBlock) (lowerHalf.startPage 63) + tc58nvg0s3e.pagesOf 2 ≤
      SkipWalk.usableBefore (tc58nvg0s3e.usable wornBlock)
        ((lowerHalf.blockEnd.toNat + 1) * tc58nvg0s3e.pagesPerBlock) :=
  NfiPartition.staysInside_write_iff (by decide) (by decide) (by decide) (by decide)

/-- A write to the last block of the lower half, a bad one, goes to the upper half; to erase all of
the upper half starts with block 0. -/
theorem halves_not_isolated :
    ¬lowerHalf.Isolated (nfiStart (fun _ _ => 0xff) (fun _ _ => 0xff) fun block => block == 511)
        [.writePage 32704 (List.replicate 2048 1)] ∧
      ¬upperHalf.Isolated (nfiStart (fun _ _ => 0xff) (fun _ _ => 0xff) fun _ => false) [.eraseAll] := by
  constructor
  · intro isolated
    have safe := (NfiPartition.stepsStayInside_of_isolated
      [(eagerChip, .writePage 32704 (List.replicate 2048 1))]
      (NfiPartition.nfiStart_coherent _ _ _) isolated).1
    have next := safe (by decide) 32768 ?_
    · exact absurd next.2 (by decide)
    rw [List.length_replicate]
    refine ⟨by decide, .inr ⟨by decide, ?_⟩⟩
    rw [show lowerHalf.startPage 32704 = 32704 by decide, tc58nvg0s3e.reaches_nextBlock (by decide)]
    rw [show tc58nvg0s3e.nextBlock 32704 = 32768 by decide, show tc58nvg0s3e.pagesOf 2048 = 1 by decide]
    exact ⟨le_rfl, by decide, Nat.lt_add_of_pos_right Nat.one_pos⟩
  · intro isolated
    have safe := (NfiPartition.stepsStayInside_of_isolated [(eagerChip, .eraseAll)]
      (NfiPartition.nfiStart_coherent _ _ _) isolated).1
    rcases safe with none | first
    · exact absurd none (by decide)
    · exact absurd first (by decide)

end NuMakerMA35
