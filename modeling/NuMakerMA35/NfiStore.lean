import NuMakerMA35.NfiSkip

namespace NuMakerMA35

namespace NfiPartition

variable {g : NfiGeometry} (dev : NfiPartition g) (chip : NfiChip)

def startPage (_ : NfiPartition g) (page : U32) : Nat := page.toNat % (2 ^ 32 / g.writesize)

def startBlock (_ : NfiPartition g) (block : U32) : Nat := block.toNat % (2 ^ 32 / g.erasesize)

def blockOf (_ : NfiPartition g) (page : U32) : U32 := BitVec.ofNat 32 (page.toNat / g.pagesPerBlock)

def readBack (page : U32) (len : Nat) (f : NfiFlash) : Option Int × List Byte :=
  ((dev.readPage chip page len f).1, (dev.readPage chip page len f).2.1)

/-- From one state: data of up to `extra + 1` pages written to `p` are read back. -/
def ReadsBack (p : U32) (extra : Nat) (f : NfiFlash) : Prop :=
  ∀ data : List Byte, data.length ≤ (extra + 1) * g.writesize →
    (dev.writePage chip p data f).1 = some rtEok →
      dev.readBack chip p data.length (dev.writePage chip p data f).2 = (some rtEok, data)

/-- From one state: neither a write of up to `extra + 1` pages, a move nor an erasure at `p` changes what a
read of `len` bytes at `q` returns. -/
structure KeepsPages (p q : U32) (extra len : Nat) (f : NfiFlash) : Prop where
  write_keeps : ∀ data : List Byte, data.length ≤ (extra + 1) * g.writesize →
    dev.readBack chip q len (dev.writePage chip p data f).2 = dev.readBack chip q len f
  move_keeps : ∀ srcPage : U32,
    dev.readBack chip q len (dev.movePage chip srcPage p f).2 = dev.readBack chip q len f
  erase_keeps :
    dev.readBack chip q len (dev.eraseBlock chip (dev.blockOf p) f).2 = dev.readBack chip q len f

/-- The page store for two pages, on a chip that carries out every command: what is written to `p` from the
state `f` is read back, and `q` is kept whatever the chip holds. -/
def PageStoreSound (f : NfiFlash) (p q : U32) (extra len : Nat) : Prop :=
  ∀ chip : NfiChip, chip.Reliable → dev.ReadsBack chip p extra f ∧
    ∀ f' : NfiFlash, f'.Coherent → f'.bbt = f.bbt → dev.KeepsPages chip p q extra len f'

/-- The pages are erased that writes of up to `extra + 1` pages to `p` come to, where they get through. -/
def Erased (f : NfiFlash) (p : U32) (extra : Nat) : Prop :=
  ∀ n, n ≤ extra + 1 → g.Ends f.bbt (dev.startPage p) (n * g.writesize) →
    ∀ x, g.Visits f.bbt (dev.startPage p) (n * g.writesize) x → ∀ c, c < g.writesize → f.page x c = 0xff

/-- No page visited from `p` is visited from `q`, and none visited from `q` lies in the block erased
for `p`. -/
def Apart (bbt : Nat → Bool) (p q : U32) (extra len : Nat) : Prop :=
  (∀ n, n ≤ (extra + 1) * g.writesize → ∀ x, g.Visits bbt (dev.startPage p) n x →
      ¬g.Visits bbt (dev.startPage q) len x) ∧
    ∀ x, g.Visits bbt (dev.startPage q) len x → x / g.pagesPerBlock ≠ dev.startBlock (dev.blockOf p)

variable {dev} {chip}

theorem pageOffset_eq (page : U32) : dev.pageOffset page = dev.startPage page * g.writesize := by
  have whole : 2 ^ 32 = 2 ^ 32 / g.writesize * g.writesize := by
    have h := g.page_supported
    exact (Nat.div_mul_cancel (Nat.pow_dvd_pow 2 (by omega))).symm
  unfold pageOffset startPage
  conv_lhs => rw [whole, Nat.mul_comm, Nat.mul_mod_mul_right]

theorem blockOffset_eq (block : U32) : dev.blockOffset block = dev.startBlock block * g.erasesize := by
  unfold blockOffset startBlock
  conv_lhs => rw [g.word_eq, Nat.mul_comm, Nat.mul_mod_mul_right]

theorem blockOffset_div (block : U32) : dev.blockOffset block / g.erasesize = dev.startBlock block := by
  rw [blockOffset_eq, Nat.mul_div_cancel _ g.erasesize_pos]

theorem startPage_lt {page : U32} (accepted : dev.pageBeyond page = false) : dev.startPage page < g.pages := by
  have onChip := dev.onChip
  have upTo : page.toNat / g.pagesPerBlock ≤ dev.blockEnd.toNat := by simpa [pageBeyond] using accepted
  have below : page.toNat < g.pages := (Nat.div_lt_iff_lt_mul g.pagesPerBlock_pos).mp (by omega)
  exact (Nat.mod_le _ _).trans_lt below

theorem mtdResult_eq_rtEok {ret : Int} : mtdResult ret = rtEok ↔ ret = 0 := by
  unfold mtdResult
  split_ifs with zero
  · simp [zero]
  · simp only [zero, iff_false]
    decide

theorem map_mtdResult_rtEok {ret : Option Int} : ret.map mtdResult = some rtEok ↔ ret = some 0 := by
  cases ret with
  | none => simp
  | some ret => simp [mtdResult_eq_rtEok]

theorem readBack_eq {page : U32} {len : Nat} {f : NfiFlash} (accepted : dev.pageBeyond page = false)
    (some : len ≠ 0) : dev.readBack chip page len f =
      ((nandReadSkipBad g chip (dev.startPage page * g.writesize) len f).1.map mtdResult,
        (nandReadSkipBad g chip (dev.startPage page * g.writesize) len f).2.1) := by
  simp [readBack, readPage, accepted, some, pageOffset_eq]

theorem readBack_agree (reliable : chip.Reliable) {q : U32} {len : Nat} {f f' : NfiFlash}
    {new : List NfiTouch} (right : f.Coherent) (became : NfiBecomes g f new f')
    (untouched : ∀ x, g.Visits f.bbt (dev.startPage q) len x →
      .program x ∉ new ∧ .erase (x / g.pagesPerBlock) ∉ new) :
    dev.readBack chip q len f' = dev.readBack chip q len f := by
  by_cases beyond : dev.pageBeyond q = true
  · simp [readBack, readPage, beyond]
  rw [Bool.not_eq_true] at beyond
  by_cases empty : len = 0
  · simp [readBack, readPage, beyond, empty]
  rw [readBack_eq beyond empty, readBack_eq beyond empty]
  obtain ⟨result, bytes⟩ := nandReadSkipBad_agree g chip reliable (dev.startPage q)
    (Nat.pos_of_ne_zero empty) right (became.coherent right) became.bbt fun x visited =>
      became.page x (untouched x visited).1 (untouched x visited).2
  rw [result, bytes]

theorem eraseBlock_becomes (block : U32) (f : NfiFlash) :
    ∃ new, NfiBecomes g f new (dev.eraseBlock chip block f).2 ∧
      ∀ t ∈ new, t = .erase (dev.startBlock block) ∧ dev.blockBeyond block = false := by
  unfold eraseBlock
  split_ifs with beyond
  · exact ⟨[], .refl f, by simp⟩
  · obtain ⟨new, became, only⟩ := mtdErase_becomes g chip (dev.blockOffset block) f
    rw [blockOffset_div] at only
    exact ⟨new, became, fun t inside => ⟨only t inside, by simpa using beyond⟩⟩

theorem writePage_becomes (page : U32) (data : List Byte) (f : NfiFlash) :
    ∃ new, NfiBecomes g f new (dev.writePage chip page data f).2 ∧
      ∀ t ∈ new, ∃ x, t = .program x ∧ dev.pageBeyond page = false ∧
        g.Visits f.bbt (dev.startPage page) data.length x := by
  unfold writePage
  split_ifs with beyond empty
  · exact ⟨[], .refl f, by simp⟩
  · exact ⟨[], .refl f, by simp⟩
  · rw [pageOffset_eq]
    obtain ⟨new, became, only⟩ := nandWriteSkipBad_becomes g chip (dev.startPage page) data f
    refine ⟨new, became, ?_⟩
    intro t inside
    obtain ⟨x, same, visited⟩ := only t inside
    exact ⟨x, same, by simpa using beyond, visited⟩

theorem movePage_becomes (srcPage dstPage : U32) (f : NfiFlash) :
    ∃ new, NfiBecomes g f new (dev.movePage chip srcPage dstPage f).2 ∧
      ∀ t ∈ new, ∃ x, t = .program x ∧
        (dev.pageBeyond srcPage = false ∧ dev.pageBeyond dstPage = false) ∧
        (∃ y, g.Visits f.bbt (dev.startPage srcPage) g.writesize y) ∧
        g.Visits f.bbt (dev.startPage dstPage) g.writesize x := by
  unfold movePage
  split_ifs with beyond
  · exact ⟨[], .refl f, by simp⟩
  simp only [Bool.or_eq_true, not_or, Bool.not_eq_true] at beyond
  have read := nandReadSkipBad_becomes g chip (dev.startPage srcPage) g.writesize f
  have full := @nandReadSkipBad_length g chip (dev.startPage srcPage) g.writesize f
  have some := @visits_of_nandReadSkipBad g chip (dev.startPage srcPage) g.writesize f
    g.writesize_pos.ne'
  rw [pageOffset_eq, pageOffset_eq]
  cases eq : nandReadSkipBad g chip (dev.startPage srcPage * g.writesize) g.writesize f with
  | mk ret rest =>
    obtain ⟨pageBuf, f'⟩ := rest
    rw [eq] at read full some
    cases ret with
    | none => exact ⟨[], read, by simp⟩
    | some ret =>
      dsimp only
      split_ifs with failed
      · exact ⟨[], read, by simp⟩
      · rw [not_ne_iff] at failed
        obtain ⟨new, became, only⟩ :=
          nandWriteSkipBad_becomes g chip (dev.startPage dstPage) pageBuf f'
        rw [read.bbt, full (by rw [failed])] at only
        refine ⟨new, by simpa using read.trans became, ?_⟩
        intro t inside
        obtain ⟨x, same, visited⟩ := only t inside
        exact ⟨x, same, beyond, some (by rw [failed]), visited⟩

theorem writePage_eq {page : U32} {data : List Byte} {f : NfiFlash} (accepted : dev.pageBeyond page = false)
    (some : data ≠ []) : dev.writePage chip page data f =
      ((nandWriteSkipBad g chip (dev.startPage page * g.writesize) data f).1.map mtdResult,
        (nandWriteSkipBad g chip (dev.startPage page * g.writesize) data f).2) := by
  simp [writePage, accepted, some, pageOffset_eq]

theorem readsBack_of_erased (reliable : chip.Reliable) {p : U32} {extra : Nat} {f : NfiFlash} (right : f.Coherent)
    (accepted : dev.pageBeyond p = false) (erased : dev.Erased f p extra) : dev.ReadsBack chip p extra f := by
  intro data small done
  by_cases empty : data = []
  · subst empty
    simp [readBack, readPage, accepted]
  rw [readBack_eq accepted (by simpa using empty)]
  rw [writePage_eq accepted empty] at done ⊢
  have written := map_mtdResult_rtEok.mp done
  obtain ⟨-, ends⟩ := (nandWriteSkipBad_done_iff g chip reliable f empty (startPage_lt accepted)).mp written
  obtain ⟨result, bytes⟩ := nandReadSkipBad_of_write g chip reliable right empty (fun x visited =>
    erased _ (g.pagesOf_le_iff.mpr small) (g.ends_whole.mpr ends) x (g.visits_whole.mpr visited)) written
  rw [result, bytes]
  rfl

theorem keepsPages_of_apart (reliable : chip.Reliable) {p q : U32} {extra len : Nat} {f : NfiFlash}
    (right : f.Coherent) (apart : dev.Apart f.bbt p q extra len) :
    dev.KeepsPages chip p q extra len f where
  write_keeps data small := by
    obtain ⟨new, became, only⟩ := @writePage_becomes g dev chip p data f
    apply readBack_agree reliable right became
    intro x visited
    constructor
    · intro inside
      obtain ⟨y, same, -, shared⟩ := only _ inside
      cases same
      exact apart.1 data.length small x shared visited
    · intro inside
      obtain ⟨y, same, -⟩ := only _ inside
      cases same
  move_keeps srcPage := by
    obtain ⟨new, became, only⟩ := @movePage_becomes g dev chip srcPage p f
    apply readBack_agree reliable right became
    intro x visited
    constructor
    · intro inside
      obtain ⟨y, same, -, -, shared⟩ := only _ inside
      cases same
      exact apart.1 g.writesize (Nat.le_mul_of_pos_left _ (by omega)) x shared visited
    · intro inside
      obtain ⟨y, same, -⟩ := only _ inside
      cases same
  erase_keeps := by
    obtain ⟨new, became, only⟩ := @eraseBlock_becomes g dev chip (dev.blockOf p) f
    apply readBack_agree reliable right became
    intro x visited
    constructor
    · intro inside
      cases (only _ inside).1
    · intro inside
      exact apart.2 x visited (NfiTouch.erase.inj (only _ inside).1)

theorem writePage_programs (reliable : chip.Reliable) {page : U32} {data : List Byte} (f : NfiFlash)
    (accepted : dev.pageBeyond page = false) (some : data ≠ []) :
    ∃ new, NfiBecomes g f new (dev.writePage chip page data f).2 ∧
      (∀ x, g.Visits f.bbt (dev.startPage page) data.length x → .program x ∈ new) ∧
      ∀ b, (∀ y ∈ data, y = b) → ∀ x, .program x ∈ new → ∀ c, c = 0 ∨ b = 0xff →
        (dev.writePage chip page data f).2.page x c = f.page x c &&& b := by
  rw [writePage_eq accepted some]
  exact nandWriteSkipBad_reliable g chip reliable (dev.startPage page) f some

theorem writePage_shows (reliable : chip.Reliable) {p : U32} {n x c : Nat} {b : Byte} {f : NfiFlash}
    (accepted : dev.pageBeyond p = false) (visited : g.Visits f.bbt (dev.startPage p) n x)
    (shown : c = 0 ∨ b = 0xff) :
    (dev.writePage chip p (List.replicate n b) f).2.page x c = f.page x c &&& b := by
  have some : List.replicate n b ≠ [] := by
    intro none
    exact visited.some (by simpa using none)
  obtain ⟨new, -, all, bytes⟩ := writePage_programs reliable f accepted some
  rw [List.length_replicate] at all
  exact bytes b (fun y inside => List.eq_of_mem_replicate inside) x (all x visited) c shown

theorem erased_of_readsBack (reliable : chip.Reliable) {p : U32} {extra : Nat} {f : NfiFlash} (right : f.Coherent)
    (accepted : dev.pageBeyond p = false) (readsBack : dev.ReadsBack chip p extra f) : dev.Erased f p extra := by
  intro n few ends x visited c column
  have some := visited.some
  have nonempty : List.replicate (n * g.writesize) (0xff : Byte) ≠ [] := by
    simpa [List.replicate_eq_nil_iff] using some
  have fits : (checkSkipLen g f.bbt (dev.startPage p * g.writesize) (n * g.writesize)).1 ≠ -1 := by
    rcases visited.2 with ⟨straight, -⟩ | ⟨skip, -⟩ <;> omega
  have done : (dev.writePage chip p (List.replicate (n * g.writesize) 0xff) f).1 = Option.some rtEok := by
    rw [writePage_eq accepted nonempty, map_mtdResult_rtEok,
      nandWriteSkipBad_done_iff g chip reliable f nonempty (startPage_lt accepted), List.length_replicate]
    exact ⟨fits, ends⟩
  have back := readsBack _ (by rw [List.length_replicate]; exact Nat.mul_le_mul_right _ few) done
  obtain ⟨_, became, -⟩ := @writePage_becomes g dev chip p (List.replicate (n * g.writesize) 0xff) f
  rw [readBack_eq accepted (by rwa [List.length_replicate]), Prod.mk.injEq, List.length_replicate] at back
  have shown := @mem_nandReadSkipBad g chip reliable (dev.startPage p) (n * g.writesize) x c _
    (became.coherent right) column (.inr ⟨n, Nat.mul_comm _ _⟩) (by rw [became.bbt]; exact visited)
  rw [back.2, writePage_shows reliable accepted visited (.inr rfl)] at shown
  exact BitVec.and_allOnes.symm.trans (List.eq_of_mem_replicate shown)

theorem startBlock_lt {block : U32} (accepted : dev.blockBeyond block = false) :
    dev.startBlock block < g.blocks := by
  have onChip := dev.onChip
  have upTo : block.toNat ≤ dev.blockEnd.toNat := by simpa [blockBeyond] using accepted
  have less : dev.startBlock block ≤ block.toNat := Nat.mod_le _ _
  omega

theorem eraseBlock_erases (reliable : chip.Reliable) (scrub : ∀ log, chip.scrub log = true)
    {block : U32} (f : NfiFlash) (accepted : dev.blockBeyond block = false) :
    (dev.eraseBlock chip block f).1 = rtEok ∧
      (dev.eraseBlock chip block f).2.touched = f.touched ++ [.erase (dev.startBlock block)] ∧
      ∀ x, x / g.pagesPerBlock = dev.startBlock block →
        (dev.eraseBlock chip block f).2.page x = fun _ => 0xff := by
  have inside := startBlock_lt accepted
  have fits : dev.startBlock block * g.erasesize + g.erasesize ≤ g.size := by
    rw [g.size_eq, ← Nat.succ_mul]
    exact Nat.mul_le_mul_right _ inside
  obtain ⟨done, touched, blank⟩ := nandEraseNand_reliable g chip reliable (dev.startBlock block) f
    (.inl (scrub f.touched))
  have erased : mtdErase g chip (dev.blockOffset block) f =
      nandEraseNand g chip (chip.scrub f.touched) (dev.startBlock block * g.erasesize) f := by
    unfold mtdErase
    rw [blockOffset_eq, if_neg (by omega)]
  simp only [eraseBlock, accepted, Bool.false_eq_true, ↓reduceIte, erased, done]
  exact ⟨rfl, touched, blank⟩

end NfiPartition

/-- A chip with one byte everywhere: 0xff on an erased one. -/
def plainFlash (bbt : Nat → Bool) (b : Byte) : NfiFlash where
  page _ _ := b
  spare _ _ := 0xff
  bbt := bbt
  pagebuf := none
  databuf _ := b
  touched := []

/-- A chip that carries out everything, and a stack that leaves `scrub` set. -/
def eagerChip : NfiChip where
  wp _ := false
  readFails _ _ := false
  programFails _ := false
  eraseFails _ := false
  scrub _ := true
  parity _ _ := 0

theorem eagerChip_reliable : eagerChip.Reliable := ⟨fun _ => rfl, fun _ _ => rfl, fun _ => rfl, fun _ => rfl⟩

theorem plainFlash_coherent (bbt : Nat → Bool) (b : Byte) : (plainFlash bbt b).Coherent := by
  intro x kept
  cases kept

namespace NfiPartition

variable {g : NfiGeometry} {dev : NfiPartition g} {bbt : Nat → Bool}

theorem readBack_notices {q : U32} {len x : Nat} {b : Byte} {f : NfiFlash} {new : List NfiTouch}
    (accepted : dev.pageBeyond q = false) (became : NfiBecomes g (plainFlash bbt b) new f)
    (visited : g.Visits bbt (dev.startPage q) len x) (other : f.page x 0 ≠ b) :
    dev.readBack eagerChip q len f ≠ dev.readBack eagerChip q len (plainFlash bbt b) := by
  have some := visited.some
  intro same
  rw [readBack_eq accepted some, readBack_eq accepted some, Prod.mk.injEq] at same
  have shown := @mem_nandReadSkipBad g eagerChip eagerChip_reliable (dev.startPage q) len x 0 f
    (became.coherent (plainFlash_coherent bbt b)) g.writesize_pos (.inl rfl) (by rw [became.bbt]; exact visited)
  rw [same.2] at shown
  obtain ⟨y, c, plain⟩ := eq_of_mem_nandReadSkipBad g eagerChip (plainFlash_coherent bbt b) shown
  exact other plain

/-- Zeros written to an erased chip are noticed where the walks have a page in common. -/
theorem not_sound_of_shared {f : NfiFlash} {p q : U32} {extra len n x : Nat} (acceptedP : dev.pageBeyond p = false)
    (acceptedQ : dev.pageBeyond q = false) (small : n ≤ (extra + 1) * g.writesize)
    (visitedP : g.Visits f.bbt (dev.startPage p) n x) (visitedQ : g.Visits f.bbt (dev.startPage q) len x) :
    ¬dev.PageStoreSound f p q extra len := by
  intro sound
  have kept := (sound eagerChip eagerChip_reliable).2 (plainFlash f.bbt 0xff) (plainFlash_coherent _ _) rfl
  have same := kept.write_keeps (List.replicate n 0) (by simpa using small)
  obtain ⟨_, became, -⟩ :=
    @writePage_becomes g dev eagerChip p (List.replicate n 0) (plainFlash f.bbt 0xff)
  refine readBack_notices acceptedQ became visitedQ ?_ same
  rw [@writePage_shows g dev eagerChip eagerChip_reliable p n x 0 0 (plainFlash f.bbt 0xff) acceptedP visitedP
    (.inl rfl)]
  exact (by decide : (0xff : Byte) &&& 0 ≠ 0xff)

theorem not_sound_of_erased {f : NfiFlash} {p q : U32} {extra len x : Nat} (acceptedP : dev.pageBeyond p = false)
    (acceptedQ : dev.pageBeyond q = false) (visitedQ : g.Visits f.bbt (dev.startPage q) len x)
    (here : x / g.pagesPerBlock = dev.startBlock (dev.blockOf p)) :
    ¬dev.PageStoreSound f p q extra len := by
  intro sound
  have kept := (sound eagerChip eagerChip_reliable).2 (plainFlash f.bbt 0) (plainFlash_coherent _ _) rfl
  have accepted : dev.blockBeyond (dev.blockOf p) = false := by
    have upTo : p.toNat / g.pagesPerBlock ≤ dev.blockEnd.toNat := by
      simpa [pageBeyond] using acceptedP
    have less : p.toNat / g.pagesPerBlock % 2 ^ 32 ≤ p.toNat / g.pagesPerBlock := Nat.mod_le _ _
    simpa [blockBeyond, blockOf] using less.trans upTo
  have same := kept.erase_keeps
  obtain ⟨_, became, -⟩ := @eraseBlock_becomes g dev eagerChip (dev.blockOf p) (plainFlash f.bbt 0)
  refine readBack_notices acceptedQ became visitedQ ?_ same
  rw [(eraseBlock_erases eagerChip_reliable (fun _ => rfl) _ accepted).2.2 x here]
  decide

/-- The page store is sound for two accepted pages exactly if the pages that a write to the first comes to are
erased, the walks have no page in common and none of the second lies in the block of the first. -/
theorem pageStoreSound_iff {f : NfiFlash} (right : f.Coherent) {p q : U32} (extra len : Nat)
    (acceptedP : dev.pageBeyond p = false) (acceptedQ : dev.pageBeyond q = false) :
    dev.PageStoreSound f p q extra len ↔ dev.Erased f p extra ∧ dev.Apart f.bbt p q extra len := by
  constructor
  · intro sound
    refine ⟨erased_of_readsBack eagerChip_reliable right acceptedP (sound eagerChip eagerChip_reliable).1, ?_, ?_⟩
    · intro n small x visitedP visitedQ
      exact not_sound_of_shared acceptedP acceptedQ small visitedP visitedQ sound
    · intro x visitedQ here
      exact not_sound_of_erased acceptedP acceptedQ visitedQ here sound
  · rintro ⟨erased, apart⟩ chip reliable
    refine ⟨readsBack_of_erased reliable right acceptedP erased, ?_⟩
    intro f' right' blocks
    rw [← blocks] at apart
    exact keepsPages_of_apart reliable right' apart

end NfiPartition

def tc58nvg0s3e : NfiGeometry where
  pageShift := 11
  physEraseShift := 17
  chipShift := 27
  oobsize := 64
  scan2ndpage := true
  scanlastpage := false
  page_supported := by decide
  pages_in_block := by decide
  erase_fits := by decide
  blocks_in_chip := by decide
  row_fits := by decide
  spare_fits := by decide
  one_scan := by decide

theorem tc58nvg0s3e_ordered : (0 : U32) ≤ 1023 := by decide

theorem tc58nvg0s3e_last : (1023 : U32).toNat < tc58nvg0s3e.blocks := by decide

def wholeChip : NfiPartition tc58nvg0s3e where
  blockStart := 0
  blockEnd := 1023
  blockTotal := 1024
  ordered := tc58nvg0s3e_ordered
  onChip := tc58nvg0s3e_last

def wornBlock (block : Nat) : Bool := block == 1

theorem wornBlock_apart :
    (∀ x, tc58nvg0s3e.Visits wornBlock 63 2048 x → ¬tc58nvg0s3e.Visits wornBlock 64 2048 x) ↔
      (63 ≤ 64 → SkipWalk.usableBefore (tc58nvg0s3e.usable wornBlock) 63 + tc58nvg0s3e.pagesOf 2048 ≤
          SkipWalk.usableBefore (tc58nvg0s3e.usable wornBlock) 64) ∧
        (64 ≤ 63 → SkipWalk.usableBefore (tc58nvg0s3e.usable wornBlock) 64 + tc58nvg0s3e.pagesOf 2048 ≤
          SkipWalk.usableBefore (tc58nvg0s3e.usable wornBlock) 63) :=
  tc58nvg0s3e.visits_apart_iff (by decide) ⟨63, by decide⟩ ⟨128, by decide⟩

theorem wholeChip_sound_iff : wholeChip.PageStoreSound (plainFlash wornBlock 0xff) 0 64 0 2048 ↔
    wholeChip.Erased (plainFlash wornBlock 0xff) 0 0 ∧ wholeChip.Apart wornBlock 0 64 0 2048 :=
  NfiPartition.pageStoreSound_iff (plainFlash_coherent _ _) 0 2048 (by decide) (by decide)

/-- Page 64, in the bad block, and page 128, the first of the next good one, share a place, also on an erased
chip. -/
theorem badBlock_writes_next : ¬wholeChip.PageStoreSound (plainFlash wornBlock 0xff) 64 128 0 2048 :=
  @NfiPartition.not_sound_of_shared _ _ _ _ _ 0 2048 2048 128 (by decide) (by decide) (by decide) (by decide)
    (by decide)

end NuMakerMA35
