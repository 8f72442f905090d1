import NuMakerMA35.NuWriterBootinfo

namespace NuMakerMA35

open Words

/-- Units that can be read at the two places of the headers. -/
structure HeaderUnits (place0 place1 : U32) where
  read : U32 → Option Mem
  header0 : Mem
  header1 : Mem
  first : read place0 = some header0
  second : read place1 = some header1

/-- A NAND flash: its blocks have pages, a page holds a header, and the erase size fits 32 bits. -/
structure NandGeometry where
  pageSize : U32
  pagesPerBlock : U32
  large : bootInfoSize + 8 ≤ pageSize.toNat
  paged : 0 < pagesPerBlock.toNat
  inSpace : pagesPerBlock.toNat * pageSize.toNat < 2 ^ 32

/-- The media of the comment at the top of nuwriter.c, with the units where it places the headers:
sectors 2 and 3 of 512 bytes, the first sectors of 4096 bytes, and the first pages of the first
two blocks. -/
inductive BootMedium where
  | sdEmmc (first : Bool) (units : HeaderUnits 2 3)
  | qspiNor (units : HeaderUnits 0 1)
  | nand (raw : Bool) (geometry : NandGeometry) (units : HeaderUnits 0 geometry.pagesPerBlock)

namespace BootMedium

def bootsrc : BootMedium → BootSrc
  | sdEmmc true _ => .sdEmmc0
  | sdEmmc false _ => .sdEmmc1
  | qspiNor _ => .qspi0Nor
  | nand true _ _ => .rawNand
  | nand false _ _ => .qspi0Nand

def storage : BootMedium → BootStorage
  | sdEmmc _ units => .block (some 512) units.read
  | qspiNor units => .block (some 4096) units.read
  | nand _ geometry units => .mtd geometry.pageSize geometry.pagesPerBlock units.read

/-- The documented places of the headers, in the medium's own unit. -/
def places : BootMedium → List U32
  | sdEmmc _ _ => [2, 3]
  | qspiNor _ => [0, 1]
  | nand _ geometry _ => [0, geometry.pagesPerBlock]

def headers : BootMedium → List PackBuf
  | sdEmmc _ units => [unitBuf units.header0 512, unitBuf units.header1 512]
  | qspiNor units => [unitBuf units.header0 4096, unitBuf units.header1 4096]
  | nand _ geometry units =>
    [unitBuf units.header0 geometry.pageSize, unitBuf units.header1 geometry.pageSize]

def isBlock : BootMedium → Bool
  | nand _ _ _ => false
  | _ => true

def newest (m : BootMedium) : Option (List (BitVec 8)) :=
  ((m.headers.filter (·.ValidHeader)).argmax (·.version.toNat)).map (·.header)

/-- The call reads the documented places and selects the newest header; what it copied counts as
selected where it returns 0. -/
def Right (m : BootMedium) : Prop :=
  ∃ ret copied, nuwriterGetBootinfo m.bootsrc (fun _ => some ⟨true, true, m.storage⟩) [] =
      (.ok (ret, copied), m.places) ∧ (if ret = 0 then copied else none) = m.newest

end BootMedium

theorem argmax_filter_pos {α : Type} (f : α → Nat) (p : α → Prop) [DecidablePred p] (l : List α) :
    (l.filter fun a => p a ∧ 0 < f a).argmax f =
      ((l.filter fun a => p a).argmax f).filter fun a => 0 < f a := by
  induction l using List.reverseRecOn with
  | nil => rfl
  | append_singleton l a ih =>
    rw [List.filter_append, List.filter_append, List.filter_singleton, List.filter_singleton]
    by_cases here : p a
    · by_cases positive : 0 < f a
      · simp only [here, positive, and_self, decide_true, cond_true]
        rw [List.argmax_concat, List.argmax_concat, ih]
        cases (l.filter fun a => p a).argmax f with
        | none => simp [Option.filter, positive]
        | some c =>
          by_cases zero : 0 < f c
          · by_cases more : f c < f a
            · simp [Option.filter, zero, more, positive]
            · simp [Option.filter, zero, more]
          · have more : f c < f a := by omega
            simp [Option.filter, zero, more, positive]
      · simp only [here, positive, and_false, decide_false, decide_true, cond_true, cond_false,
          List.append_nil]
        rw [List.argmax_concat, ih]
        cases (l.filter fun a => p a).argmax f with
        | none => simp [Option.filter, positive]
        | some c =>
          have less : ¬f c < f a := by omega
          simp [Option.filter, less]
    · simp only [here, false_and, decide_false, cond_false, List.append_nil]
      exact ih

theorem foldl_takeNewer (bs : List PackBuf) :
    bs.foldl PackBuf.takeNewer (0, none) =
      match (bs.filter fun b => b.ValidHeader ∧ 0 < b.version.toNat).argmax (·.version.toNat) with
      | none => (0, none)
      | some b => (b.version, some b.header) := by
  induction bs using List.reverseRecOn with
  | nil => rfl
  | append_singleton bs b ih =>
    rw [List.foldl_append, List.foldl_cons, List.foldl_nil, ih, List.filter_append,
      List.filter_singleton]
    by_cases counts : b.ValidHeader ∧ 0 < b.version.toNat
    · have positive : (0 : U32) < b.version := counts.2
      rw [decide_eq_true counts, cond_true, List.argmax_concat]
      unfold PackBuf.takeNewer
      cases (bs.filter fun b => b.ValidHeader ∧ 0 < b.version.toNat).argmax (·.version.toNat) with
      | none => simp only [counts, positive, and_self, if_true]
      | some c =>
        by_cases more : c.version < b.version
        · simp only [counts, more, and_self, if_true, show c.version.toNat < b.version.toNat from more]
        · have less : ¬c.version.toNat < b.version.toNat := more
          simp only [more, less, and_false, if_false]
    · have passed (newer : Newest) : PackBuf.takeNewer newer b = newer := by
        refine if_neg fun both => counts ⟨both.1, ?_⟩
        exact Nat.lt_of_le_of_lt (Nat.zero_le _) both.2
      rw [decide_eq_false counts, cond_false, List.append_nil, passed]

/-- What the loop selects is the newest header exactly if a version is not 0 or none is valid. -/
theorem selected_iff (bs : List PackBuf) :
    (bs.foldl PackBuf.takeNewer (0, none)).2 =
      ((bs.filter (·.ValidHeader)).argmax (·.version.toNat)).map (·.header) ↔
    (∀ b ∈ bs, ¬b.ValidHeader) ∨ ∃ b ∈ bs, b.ValidHeader ∧ b.version ≠ 0 := by
  rw [foldl_takeNewer, argmax_filter_pos]
  cases newest : (bs.filter (·.ValidHeader)).argmax (·.version.toNat) with
  | none =>
    refine iff_of_true rfl (.inl fun b inside valid => ?_)
    have empty := List.argmax_eq_none.mp newest
    have kept : b ∈ bs.filter (·.ValidHeader) := List.mem_filter.mpr ⟨inside, decide_eq_true valid⟩
    rw [empty] at kept
    cases kept
  | some b =>
    obtain ⟨inside, valid⟩ := List.mem_filter.mp (List.argmax_mem newest)
    have valid := of_decide_eq_true valid
    by_cases positive : 0 < b.version.toNat
    · have counted : b.version ≠ 0 := fun zero => by simp [zero] at positive
      refine iff_of_true ?_ (.inr ⟨b, inside, valid, counted⟩)
      simp only [Option.filter_some, positive, decide_true, if_true, Option.map_some]
    · refine iff_of_false ?_ ?_
      · simp only [Option.filter_some, positive, decide_false, Bool.false_eq_true, if_false,
          Option.map_some]
        exact fun same => by cases same
      · rintro (none | ⟨c, among, validC, counted⟩)
        · exact none b inside valid
        · have kept : c ∈ bs.filter (·.ValidHeader) :=
            List.mem_filter.mpr ⟨among, decide_eq_true validC⟩
          have atMost : c.version.toNat ≤ b.version.toNat :=
            List.le_of_mem_argmax (f := fun b : PackBuf => b.version.toNat) kept newest
          exact counted (BitVec.eq_of_toNat_eq (by simp; omega))

section

variable {storage : BootStorage} {offset place size : U32} {mem : Mem}

theorem unitBuf_holds (large : bootInfoSize + 8 ≤ size.toNat) : (unitBuf mem size).HoldsHeader :=
  ⟨rfl, large⟩

theorem bootinfoTurn_run (unit : storage.unit offset = some (place, size, some mem))
    (large : bootInfoSize + 8 ≤ size.toNat) (newer : Newest) (log : List U32) :
    bootinfoTurn storage offset newer log =
      (.ok (some (PackBuf.takeNewer newer (unitBuf mem size))), log ++ [place]) := by
  unfold bootinfoTurn
  rw [unit]
  dsimp only
  rw [Logged.bind_ok (Logged.issue_apply _ _ _), PackBuf.bootinfoUnit_value (unitBuf_holds large)]
  rfl

theorem bootinfoTurn_place {found : Option Mem} (unit : storage.unit offset = some (place, size, found))
    (newer : Newest) (log : List U32) : (bootinfoTurn storage offset newer log).2 = log ++ [place] := by
  unfold bootinfoTurn
  rw [unit]
  cases found with
  | none => rfl
  | some mem =>
    dsimp only
    rw [Logged.bind_ok (Logged.issue_apply _ _ _)]
    cases (unitBuf mem size).bootinfoUnit newer <;> rfl

end

def bootinfoUnits (storage : BootStorage) (offsets : U32 × U32) :
    Bootinfo (Int × Option (List (BitVec 8))) := do
  let first ← bootinfoTurn storage offsets.1 (0, none)
  match first with
  | none => pure (-1, none)
  | some newer => do
    let second ← bootinfoTurn storage offsets.2 newer
    match second with
    | none => pure (-1, newer.2)
    | some newer => pure (0, newer.2)

theorem nuwriterGetBootinfo_medium (m : BootMedium) :
    nuwriterGetBootinfo m.bootsrc (fun _ => some ⟨true, true, m.storage⟩) =
      bootinfoUnits m.storage (sHdrInfo m.bootsrc).hdrOffset := by
  cases m with
  | sdEmmc first units => cases first <;> rfl
  | qspiNor units => rfl
  | nand raw geometry units => cases raw <;> rfl

theorem bootinfoUnits_run {storage : BootStorage} {offset0 offset1 place0 place1 size : U32}
    {mem0 mem1 : Mem} (unit0 : storage.unit offset0 = some (place0, size, some mem0))
    (unit1 : storage.unit offset1 = some (place1, size, some mem1))
    (large : bootInfoSize + 8 ≤ size.toNat) :
    bootinfoUnits storage (offset0, offset1) [] =
      (.ok (0, ([unitBuf mem0 size, unitBuf mem1 size].foldl PackBuf.takeNewer (0, none)).2),
        [place0, place1]) := by
  unfold bootinfoUnits
  rw [Logged.bind_ok (bootinfoTurn_run unit0 large _ _)]
  dsimp only
  rw [Logged.bind_ok (bootinfoTurn_run unit1 large _ _)]
  rfl

theorem bootinfoUnits_places {storage : BootStorage} {offset0 offset1 place0 place1 size : U32}
    {mem0 : Mem} {found : Option Mem} (unit0 : storage.unit offset0 = some (place0, size, some mem0))
    (unit1 : storage.unit offset1 = some (place1, size, found))
    (large : bootInfoSize + 8 ≤ size.toNat) :
    (bootinfoUnits storage (offset0, offset1) []).2 = [place0, place1] := by
  have place := bootinfoTurn_place unit1 (PackBuf.takeNewer (0, none) (unitBuf mem0 size)) [place0]
  unfold bootinfoUnits
  rw [Logged.bind_ok (bootinfoTurn_run unit0 large _ _), List.nil_append]
  dsimp only
  rw [Logged.bind_apply]
  cases second : bootinfoTurn storage offset1 (PackBuf.takeNewer (0, none) (unitBuf mem0 size))
      [place0] with
  | mk result log =>
    rw [second] at place
    rcases result with _ | _ | newer
    · exact place
    · exact place
    · exact place

theorem right_block {m : BootMedium} (block : m.isBlock = true) :
    m.Right ↔ (m.headers.foldl PackBuf.takeNewer (0, none)).2 = m.newest := by
  have run : nuwriterGetBootinfo m.bootsrc (fun _ => some ⟨true, true, m.storage⟩) [] =
      (.ok (0, (m.headers.foldl PackBuf.takeNewer (0, none)).2), m.places) := by
    rw [nuwriterGetBootinfo_medium]
    cases m with
    | sdEmmc first units =>
      have offsets : (sHdrInfo (BootMedium.sdEmmc first units).bootsrc).hdrOffset = (2, 3) := by
        cases first <;> rfl
      rw [offsets]
      exact bootinfoUnits_run (congrArg (fun mem => some (_, _, mem)) units.first)
        (congrArg (fun mem => some (_, _, mem)) units.second) (by decide)
    | qspiNor units =>
      exact bootinfoUnits_run (congrArg (fun mem => some (_, _, mem)) units.first)
        (congrArg (fun mem => some (_, _, mem)) units.second) (by decide)
    | nand raw geometry units => cases block
  unfold BootMedium.Right
  rw [run]
  constructor
  · rintro ⟨ret, copied, same, selected⟩
    cases same
    exact selected
  · intro selected
    exact ⟨0, _, rfl, selected⟩

theorem not_right_nand (raw : Bool) (geometry : NandGeometry)
    (units : HeaderUnits 0 geometry.pagesPerBlock) : ¬(BootMedium.nand raw geometry units).Right := by
  rintro ⟨ret, copied, run, -⟩
  have offsets : (sHdrInfo (BootMedium.nand raw geometry units).bootsrc).hdrOffset = (0, 1) := by
    cases raw <;> rfl
  have start : (0 : U32) * (geometry.pagesPerBlock * geometry.pageSize) = 0 := BitVec.zero_mul
  have first : (BootMedium.nand raw geometry units).storage.unit 0 =
      some (0, geometry.pageSize, some units.header0) := by
    simp only [BootMedium.storage, BootStorage.unit, start, units.first]
  have second : (BootMedium.nand raw geometry units).storage.unit 1 =
      some (geometry.pagesPerBlock * geometry.pageSize, geometry.pageSize,
        units.read (geometry.pagesPerBlock * geometry.pageSize)) := by
    have once : (1 : U32) * (geometry.pagesPerBlock * geometry.pageSize) =
        geometry.pagesPerBlock * geometry.pageSize := BitVec.one_mul _
    simp only [BootMedium.storage, BootStorage.unit, once]
  rw [nuwriterGetBootinfo_medium, offsets] at run
  have read := bootinfoUnits_places first second geometry.large
  rw [run] at read
  have same : geometry.pagesPerBlock = geometry.pagesPerBlock * geometry.pageSize :=
    List.head_eq_of_cons_eq (List.tail_eq_of_cons_eq read)
  have pages := congrArg BitVec.toNat same
  rw [BitVec.toNat_mul, Nat.mod_eq_of_lt geometry.inSpace] at pages
  have large := geometry.large
  have paged := geometry.paged
  have one : geometry.pageSize.toNat = 1 :=
    Nat.eq_of_mul_eq_mul_left paged (pages.symm.trans (Nat.mul_one _).symm)
  omega

/-- For every content of the two locations: the documented places are read and the newest valid
header is selected exactly on a block device where not all valid headers have version 0. -/
theorem bootinfo_right_iff (m : BootMedium) :
    m.Right ↔ m.isBlock = true ∧
      ((∀ b ∈ m.headers, ¬b.ValidHeader) ∨ ∃ b ∈ m.headers, b.ValidHeader ∧ b.version ≠ 0) := by
  cases kind : m.isBlock with
  | true =>
    rw [right_block kind]
    exact (selected_iff m.headers).trans (and_iff_right rfl).symm
  | false =>
    cases m with
    | sdEmmc first units => cases kind
    | qspiNor units => cases kind
    | nand raw geometry units =>
      exact iff_of_false (not_right_nand raw geometry units) fun both => absurd both.1 (by decide)

def blankNand : BootMedium :=
  .nand true ⟨2048, 64, by decide, by decide, by decide⟩
    ⟨fun _ => some fun _ => 0xFF, fun _ => 0xFF, fun _ => 0xFF, rfl, rfl⟩

theorem second_header_misplaced : ¬blankNand.Right := not_right_nand _ _ _

end NuMakerMA35
