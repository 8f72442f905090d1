import NuMakerMA35.PackPlaces

namespace NuMakerMA35

open Words

variable {len : BitVec 64} {bytes : Mem} {place place' : PackPlace len} {mem mem' : Mem}

namespace PackPlace

theorem base_pos : 0 < place.base.toNat := by
  by_contra zero
  exact place.notNull (BitVec.eq_of_toNat_eq (by rw [Nat.eq_zero_of_not_pos zero]; rfl))

theorem exists_holds (bytes : Mem) (place : PackPlace len) : ∃ mem, place.Holds bytes mem :=
  ⟨fun x => bytes (x - place.base.toNat), fun i _ => by dsimp only; congr 1; omega⟩

def Spare (place : PackPlace len) (x : Nat) : Prop :=
  x < place.base.toNat ∨ place.base.toNat + len.toNat ≤ x

theorem Holds.update (holds : place.Holds bytes mem) {x : Nat} (spare : place.Spare x)
    (v : BitVec 8) : place.Holds bytes (Function.update mem x v) := by
  intro i hi
  have other : place.base.toNat + i ≠ x := by
    unfold Spare at spare
    omega
  rw [Function.update_of_ne other]
  exact holds i hi

theorem spare_behind {a j : Nat} (behind : len.toNat ≤ a + j)
    (inSpace : a + j < 2 ^ 32) : place.Spare ((place.base.toNat + a) % 2 ^ 32 + j) := by
  have space := place.inSpace
  have bound := place.base.isLt
  unfold Spare
  omega

theorem word_eq (mem : Mem) (a : Nat) :
    (place.loaded mem).word a = read32 mem ((place.base.toNat + a) % 2 ^ 32) := rfl

theorem Holds.word (holds : place.Holds bytes mem) {a : Nat} (inside : a + 4 ≤ len.toNat) :
    (place.loaded mem).word a = read32 bytes a := by
  have space := place.inSpace
  have near : (place.base.toNat + a) % 2 ^ 32 = place.base.toNat + a := Nat.mod_eq_of_lt (by omega)
  rw [word_eq, near]
  have at_ : ∀ k, k < 4 → mem (place.base.toNat + a + k) = bytes (a + k) := by
    intro k hk
    rw [Nat.add_assoc]
    exact holds (a + k) (by omega)
  unfold read32
  rw [at_ 3 (by omega), at_ 2 (by omega), at_ 1 (by omega)]
  congr 1
  exact at_ 0 (by omega)

theorem Holds.count (holds : place.Holds bytes mem) (header : 12 ≤ len.toNat) :
    (place.loaded mem).count = PackFormat.count bytes :=
  congrArg BitVec.toNat (holds.word header)

theorem child_words (mem : Mem) (at_ : Nat) :
    ((place.loaded mem).child ((place.base.toNat + at_) % 2 ^ 32)).imageLength =
        read32 mem ((place.base.toNat + (at_ + 4)) % 2 ^ 32) ++
          read32 mem ((place.base.toNat + at_) % 2 ^ 32) ∧
      ((place.loaded mem).child ((place.base.toNat + at_) % 2 ^ 32)).flashAddress =
        read32 mem ((place.base.toNat + (at_ + 12)) % 2 ^ 32) ++
          read32 mem ((place.base.toNat + (at_ + 8)) % 2 ^ 32) := by
  have near : ∀ k, ((place.base.toNat + at_) % 2 ^ 32 + k) % 2 ^ 32 =
      (place.base.toNat + (at_ + k)) % 2 ^ 32 := by
    intro k
    omega
  constructor
  · rw [← near 4]
    rfl
  · rw [← near 12, ← near 8]
    rfl

theorem Holds.imageLength (holds : place.Holds bytes mem) {at_ : Nat}
    (inside : at_ + 8 ≤ len.toNat) :
    ((place.loaded mem).child ((place.base.toNat + at_) % 2 ^ 32)).imageLength =
      PackFormat.imageLength bytes at_ := by
  have high : read32 mem _ = _ := holds.word (show at_ + 4 + 4 ≤ len.toNat by omega)
  have low : read32 mem _ = _ := holds.word (show at_ + 4 ≤ len.toNat by omega)
  rw [(place.child_words mem at_).1, PackFormat.imageLength, ← high, ← low]
  rfl

theorem Holds.flashAddress (holds : place.Holds bytes mem) {at_ : Nat}
    (inside : at_ + 16 ≤ len.toNat) :
    ((place.loaded mem).child ((place.base.toNat + at_) % 2 ^ 32)).flashAddress =
      PackFormat.flashAddress bytes at_ := by
  have high : read32 mem _ = _ := holds.word (show at_ + 12 + 4 ≤ len.toNat by omega)
  have low : read32 mem _ = _ := holds.word (show at_ + 8 + 4 ≤ len.toNat by omega)
  rw [(place.child_words mem at_).2, PackFormat.flashAddress, ← high, ← low]
  rfl

theorem Holds.childAt (holds : place.Holds bytes mem) {k : Nat}
    (inside : ∀ j, j < k → PackFormat.child bytes j + 16 ≤ len.toNat)
    (aligned : 0 < k → 16 ∣ place.base.toNat) :
    (place.loaded mem).childAt (place.loaded mem).firstChild k =
      (place.base.toNat + PackFormat.child bytes k) % 2 ^ 32 := by
  induction k with
  | zero => rfl
  | succ k ih =>
    obtain ⟨unit, base⟩ := aligned (by omega)
    have here := inside k (by omega)
    have before := ih (fun j hj => inside j (by omega)) fun _ => ⟨unit, base⟩
    have space := place.inSpace
    rw [PackFile.childAt, before, holds.imageLength (by omega), nextChild_eq, PackFormat.child,
      imageBoundarySize, packChildSize]
    omega

theorem offset_eq (mem : Mem) (c : Nat) :
    (place.loaded mem).offset ((place.base.toNat + c) % 2 ^ 32 + packChildSize) =
      (c + packChildSize) % 2 ^ 32 := by
  have bound := place.base.isLt
  change ((place.base.toNat + c) % 2 ^ 32 + packChildSize + 2 ^ 32 - place.base.toNat) % 2 ^ 32 = _
  rw [packChildSize]
  omega

theorem sum_length (header : packHdrSize ≤ len.toNat) (place : PackPlace len) :
    (len.toNat + 2 ^ 64 - 8) % 2 ^ 64 % 2 ^ 32 = len.toNat - 8 ∧ ¬2 ^ 32 - 4 < len.toNat - 8 := by
  have space := place.inSpace
  have pos := place.base_pos
  unfold packHdrSize at header
  omega

theorem Holds.sum (holds : place.Holds bytes mem) {n : Nat} (inside : 8 + 4 * n ≤ len.toNat) :
    (List.range n).foldl (fun crc i => crc32Word crc ((place.loaded mem).word (8 + 4 * i))) crcSeed =
      (List.range n).foldl (fun crc i => crc32Word crc (read32 bytes (8 + 4 * i))) crcSeed := by
  refine List.foldl_ext _ _ _ fun crc i hi => ?_
  have below := List.mem_range.mp hi
  rw [holds.word (by omega)]

theorem Holds.headerOk (holds : place.Holds bytes mem) (holds' : place'.Holds bytes mem')
    (header : packHdrSize ≤ len.toNat) (words : 4 ∣ len.toNat) :
    (place.loaded mem).headerOk = (place'.loaded mem').headerOk := by
  have same : ∀ a, a + 4 ≤ len.toNat → (place.loaded mem).word a = (place'.loaded mem').word a :=
    fun a inside => (holds.word inside).trans (holds'.word inside).symm
  obtain ⟨size, ends⟩ := sum_length header place
  have sums : (place.loaded mem).crc32 8 (len.toNat - 8) =
      (place'.loaded mem').crc32 8 (len.toNat - 8) := by
    unfold PackFile.crc32
    unfold packHdrSize at header
    rw [if_neg ends, if_neg ends, holds.sum (by omega), holds'.sum (by omega)]
  unfold packHdrSize at header
  unfold PackFile.headerOk
  change (if _ then _ else Option.map _ ((place.loaded mem).crc32 8
      ((len.toNat + 2 ^ 64 - 8) % 2 ^ 64 % 2 ^ 32))) =
    if _ then _ else Option.map _ ((place'.loaded mem').crc32 8
      ((len.toNat + 2 ^ 64 - 8) % 2 ^ 64 % 2 ^ 32))
  rw [size, sums, same 0 (by omega), same 4 (by omega), same 12 (by omega)]

theorem checkFirst_none : (place.loaded mem).checkFirst (place.loaded mem).firstChild = none ↔
    (place.loaded mem).word 40 = nvtMarker ∧
      5 ≤ ((place.loaded mem).child (place.loaded mem).firstChild).imageLength.toNat % 2 ^ 32 ∧
      ((place.loaded mem).child (place.loaded mem).firstChild).imageLength.toNat % 2 ^ 32 ≤ 7 := by
  have start : (place.loaded mem).offset ((place.loaded mem).firstChild + packChildSize) = 40 :=
    offset_eq mem packHdrSize
  rw [PackFile.checkFirst, start, PackFile.nuwriterCheckBootInfo]
  generalize ((place.loaded mem).child (place.loaded mem).firstChild).imageLength = length
  by_cases marker : (place.loaded mem).word 40 = nvtMarker
  · rw [if_neg (not_not.mpr marker), Option.map_eq_none_iff, PackFile.crc32]
    split_ifs with long
    · exact iff_of_true rfl ⟨marker, by omega, by omega⟩
    · exact iff_of_false nofun fun all => long (by omega)
  · rw [if_pos marker]
    exact iff_of_false nofun fun all => marker all.1

theorem Holds.firstLength (holds : place.Holds bytes mem) (inside : packHdrSize + 8 ≤ len.toNat) :
    ((place.loaded mem).child (place.loaded mem).firstChild).imageLength =
      PackFormat.imageLength bytes packHdrSize := holds.imageLength inside

theorem Holds.passes (fits : PackFits bytes len) (holds : place.Holds bytes mem)
    (holds' : place'.Holds bytes mem') (passes : (place.loaded mem).Passes) :
    (place'.loaded mem').Passes := by
  obtain ⟨given, header, ends⟩ := passes
  have size := fits.header
  unfold packHdrSize at size
  refine ⟨?_, (holds'.headerOk holds fits.header fits.words).trans header, ?_⟩
  · rintro (null | empty)
    · exact place'.notNull null
    · exact given (.inr empty)
  · intro some_
    rw [holds'.count (by omega)] at some_
    have first : packHdrSize + 16 ≤ len.toNat := fits.children 0 some_
    have info := fits.bootInfo some_
    specialize ends (by rwa [holds.count (by omega)])
    rw [ne_eq, checkFirst_none, holds.firstLength (by omega)] at ends
    rw [ne_eq, checkFirst_none, holds'.firstLength (by omega)]
    rintro ⟨marker, low, high⟩
    have inside := info low high
    rw [holds'.word (by omega)] at marker
    rw [holds.word (by omega)] at ends
    exact ends ⟨marker, low, high⟩

theorem Holds.uses (fits : PackFits bytes len)
    (aligned : 1 < PackFormat.count bytes → 16 ∣ place.base.toNat) (holds : place.Holds bytes mem) :
    (place.loaded mem).uses = (List.range (PackFormat.count bytes)).map fun k =>
      ⟨PackFormat.child bytes k + packChildSize,
        PackFormat.imageLength bytes (PackFormat.child bytes k),
        PackFormat.flashAddress bytes (PackFormat.child bytes k)⟩ := by
  have size := fits.header
  unfold packHdrSize at size
  rw [PackFile.uses_eq, holds.count (by omega)]
  apply List.map_congr_left
  intro k hk
  rw [List.mem_range] at hk
  have inside := fits.children k hk
  have whole : (PackFormat.child bytes k + packChildSize) % 2 ^ 32 =
      PackFormat.child bytes k + packChildSize := by
    have space := place.inSpace
    have pos := place.base_pos
    have unit : 16 ∣ PackFormat.child bytes k := by
      cases k with
      | zero => exact Nat.dvd_refl 16
      | succ k => exact Nat.dvd_mul_left _ _
    unfold packChildSize
    omega
  rw [holds.childAt (fun j hj => fits.children j (by omega)) fun some_ => aligned (by omega),
    PackFile.use, offset_eq, whole, holds.imageLength (by omega), holds.flashAddress inside]

/-- Whatever is around the file, it is accepted, with these children at the format's offsets. -/
structure Settled (place : PackPlace len) (bytes : Mem) (uses : List PackUse) : Prop where
  passes : ∀ mem, place.Holds bytes mem → (place.loaded mem).Passes
  same : ∀ mem, place.Holds bytes mem → (place.loaded mem).uses = uses
  offsets : uses.map PackUse.imageOffset = PackFormat.imageOffsets bytes

namespace Settled

variable {uses : List PackUse}

theorem header_words {mem : Mem} (passes : (place.loaded mem).Passes) :
    (place.loaded mem).word 12 = 0xFFFFFFFF ∧
      (place.loaded mem).crc32 8 ((len.toNat + 2 ^ 64 - 8) % 2 ^ 64 % 2 ^ 32) =
        some ((place.loaded mem).word 4) := by
  have good := passes.2.1
  unfold PackFile.headerOk at good
  by_cases marks : (place.loaded mem).word 0 ≠ nvtMarker ∨
      (place.loaded mem).word 12 ≠ 0xFFFFFFFF
  · rw [if_pos marks] at good
    cases good
  rw [if_neg marks] at good
  rw [not_or, not_not, not_not] at marks
  refine ⟨marks.2, ?_⟩
  obtain ⟨sum, ends, same⟩ := Option.map_eq_some_iff.mp good
  rw [← of_decide_eq_true same]
  exact ends

theorem header (all : place.Settled bytes uses) : packHdrSize ≤ len.toNat := by
  by_contra short
  rw [packHdrSize] at short
  obtain ⟨mem, holds⟩ := exists_holds bytes place
  have spare : place.Spare ((place.base.toNat + 12) % 2 ^ 32 + 3) :=
    spare_behind (by omega) (by omega)
  obtain ⟨v, other⟩ := byte_other (mem ((place.base.toNat + 12) % 2 ^ 32 + 3))
  have here := (header_words (all.passes mem holds)).1
  have there := (header_words (all.passes _ (holds.update spare v))).1
  exact read32_update_ne (by decide) other (there.trans here.symm)

theorem words (all : place.Settled bytes uses) : 4 ∣ len.toNat := by
  by_contra part
  have size := all.header
  obtain ⟨bytesSummed, ends⟩ := sum_length size place
  rw [packHdrSize] at size
  obtain ⟨mem, holds⟩ := exists_holds bytes place
  -- the last word of the sum, of which only the first bytes are in the file
  have whole : (len.toNat - 8 + 3) / 4 = (len.toNat - 8) / 4 + 1 := by omega
  have last : 8 + 4 * ((len.toNat - 8) / 4) + len.toNat % 4 = len.toNat := by omega
  have space := place.inSpace
  have pos := place.base_pos
  have spare : place.Spare ((place.base.toNat + (8 + 4 * ((len.toNat - 8) / 4))) % 2 ^ 32 +
      len.toNat % 4) := spare_behind (by omega) (by omega)
  obtain ⟨v, other⟩ := byte_other
    (mem ((place.base.toNat + (8 + 4 * ((len.toNat - 8) / 4))) % 2 ^ 32 + len.toNat % 4))
  have holds' := holds.update spare v
  have here := (header_words (all.passes mem holds)).2
  have there := (header_words (all.passes _ holds')).2
  rw [bytesSummed, holds.word (by omega)] at here
  rw [bytesSummed, holds'.word (by omega), ← here] at there
  unfold PackFile.crc32 at there
  rw [if_neg ends, if_neg ends, whole, List.range_succ, List.foldl_append, List.foldl_append,
    Option.some_inj, BitVec.xor_left_inj, List.foldl_cons, List.foldl_cons, List.foldl_nil,
    List.foldl_nil] at there
  rw [holds.sum (by omega), holds'.sum (by omega), word_eq, word_eq] at there
  exact crc32Word_update (by omega) other _ there

theorem count (all : place.Settled bytes uses) (holds : place.Holds bytes mem) :
    (place.loaded mem).count = PackFormat.count bytes :=
  holds.count (by have := all.header; unfold packHdrSize at this; omega)

theorem use (all : place.Settled bytes uses) (holds : place.Holds bytes mem) {k : Nat}
    (more : k < PackFormat.count bytes) :
    ((place.loaded mem).use ((place.loaded mem).childAt (place.loaded mem).firstChild k)).imageOffset =
      PackFormat.child bytes k + packChildSize := by
  have offsets := all.offsets
  rw [← all.same mem holds, PackFile.uses_eq, List.map_map, all.count holds,
    PackFormat.imageOffsets, List.map_inj_left] at offsets
  have here := offsets k (List.mem_range.mpr more)
  rwa [Function.comp_apply] at here

theorem use_same (all : place.Settled bytes uses) (holds : place.Holds bytes mem)
    (holds' : place.Holds bytes mem') {k : Nat} (more : k < PackFormat.count bytes) :
    (place.loaded mem).use ((place.loaded mem).childAt (place.loaded mem).firstChild k) =
      (place.loaded mem').use ((place.loaded mem').childAt (place.loaded mem').firstChild k) := by
  have same := (all.same mem holds).trans (all.same mem' holds').symm
  rw [PackFile.uses_eq, PackFile.uses_eq, all.count holds, all.count holds',
    List.map_inj_left] at same
  exact same k (List.mem_range.mpr more)

theorem child_inside (all : place.Settled bytes uses) {k : Nat} (more : k < PackFormat.count bytes)
    (at_ : ∀ mem, place.Holds bytes mem →
      (place.loaded mem).childAt (place.loaded mem).firstChild k =
        (place.base.toNat + PackFormat.child bytes k) % 2 ^ 32) :
    PackFormat.child bytes k + 16 ≤ len.toNat := by
  by_contra outside
  obtain ⟨mem, holds⟩ := exists_holds bytes place
  have offset := all.use holds more
  rw [at_ mem holds, PackFile.use] at offset
  dsimp only at offset
  rw [offset_eq, packChildSize] at offset
  have spare : place.Spare ((place.base.toNat + (PackFormat.child bytes k + 12)) % 2 ^ 32 + 3) :=
    spare_behind (by omega) (by omega)
  obtain ⟨v, other⟩ := byte_other
    (mem ((place.base.toNat + (PackFormat.child bytes k + 12)) % 2 ^ 32 + 3))
  have holds' := holds.update spare v
  have same := congrArg PackUse.flashAddress (all.use_same holds' holds more)
  rw [at_ mem holds, at_ _ holds', PackFile.use, PackFile.use, (child_words _ _).2,
    (child_words _ _).2] at same
  have high := congrArg (BitVec.extractLsb' 32 32) same
  rw [BitVec.extractLsb'_append_eq_left, BitVec.extractLsb'_append_eq_left] at high
  exact read32_update_ne (by decide) other high

theorem first_inside (all : place.Settled bytes uses) (some_ : 0 < PackFormat.count bytes) :
    PackFormat.child bytes 0 + 16 ≤ len.toNat :=
  all.child_inside some_ fun _ _ => rfl

theorem aligned (all : place.Settled bytes uses) (more : 1 < PackFormat.count bytes) :
    16 ∣ place.base.toNat := by
  obtain ⟨mem, holds⟩ := exists_holds bytes place
  have inside := all.first_inside (by omega)
  have offset := all.use holds more
  have first : (place.loaded mem).childAt (place.loaded mem).firstChild 0 =
    (place.base.toNat + PackFormat.child bytes 0) % 2 ^ 32 := rfl
  rw [PackFile.use, PackFile.childAt, first, nextChild_eq, PackFormat.child] at offset
  change (_ + 2 ^ 32 - place.base.toNat) % 2 ^ 32 = _ / 16 * 16 + 24 at offset
  have bound := place.base.isLt
  rw [packChildSize] at offset
  omega

theorem children (all : place.Settled bytes uses) {k : Nat} (more : k < PackFormat.count bytes) :
    PackFormat.child bytes k + 16 ≤ len.toNat := by
  induction k using Nat.strong_induction_on with
  | _ k ih =>
    refine all.child_inside more fun mem holds => ?_
    exact holds.childAt (fun j hj => ih j hj (by omega)) fun some_ => all.aligned (by omega)

theorem bootInfo (all : place.Settled bytes uses) (some_ : 0 < PackFormat.count bytes)
    (low : 5 ≤ (PackFormat.imageLength bytes packHdrSize).toNat % 2 ^ 32)
    (high : (PackFormat.imageLength bytes packHdrSize).toNat % 2 ^ 32 ≤ 7) : 44 ≤ len.toNat := by
  by_contra short
  have words := all.words
  have inside : packHdrSize + 16 ≤ len.toNat := all.first_inside some_
  have bound := place.base.isLt
  obtain ⟨mem, holds⟩ := exists_holds bytes place
  have holds' : place.Holds bytes
      (write32 mem ((place.base.toNat + 40) % 2 ^ 32) nvtMarker) := by
    intro i hi
    have space := place.inSpace
    rw [write32_outside nvtMarker (by omega)]
    exact holds i hi
  have ends := (all.passes _ holds').2.2 (by rwa [all.count holds'])
  rw [ne_eq, checkFirst_none, holds'.firstLength (by omega)] at ends
  exact ends ⟨read32_write32 .., low, high⟩

theorem fits (all : place.Settled bytes uses) : PackFits bytes len :=
  ⟨all.header, all.words, fun _ more => all.children more, all.bootInfo⟩

end Settled

end PackPlace

/-- Where the file is accepted at one place, whatever is around it, it fits, and its places are
aligned if there is a second child. -/
theorem ReadAlike.settled (alike : ReadAlike bytes place place') (holds : place.Holds bytes mem)
    (passes : (place.loaded mem).Passes) :
    place.Settled bytes (place.loaded mem).uses ∧ place'.Settled bytes (place.loaded mem).uses := by
  have here := PackFile.accepted_passes passes
  have offsets : (place.loaded mem).uses.map PackUse.imageOffset = PackFormat.imageOffsets bytes := by
    obtain ⟨mem', holds'⟩ := PackPlace.exists_holds bytes place'
    exact ((alike mem mem' holds holds').2 _ _ here).1
  have accepts : ∀ file : PackFile,
      file.accepted = some ((place.loaded mem).uses, (place.loaded mem).uses) →
        file.Passes ∧ file.uses = (place.loaded mem).uses := by
    intro file same
    by_cases pass : file.Passes
    · rw [PackFile.accepted_passes pass, Option.some_inj] at same
      exact ⟨pass, congrArg Prod.fst same⟩
    · rw [PackFile.accepted_not pass] at same
      cases same
  have there : ∀ mem', place'.Holds bytes mem' → (place'.loaded mem').accepted =
      some ((place.loaded mem).uses, (place.loaded mem).uses) := by
    intro mem' holds'
    rw [← (alike mem mem' holds holds').1]
    exact here
  have everywhere : ∀ mem', place.Holds bytes mem' → (place.loaded mem').accepted =
      some ((place.loaded mem).uses, (place.loaded mem).uses) := by
    intro mem' holds'
    obtain ⟨other, otherHolds⟩ := PackPlace.exists_holds bytes place'
    rw [(alike mem' other holds' otherHolds).1]
    exact there other otherHolds
  exact ⟨⟨fun m h => (accepts _ (everywhere m h)).1, fun m h => (accepts _ (everywhere m h)).2,
    offsets⟩, ⟨fun m h => (accepts _ (there m h)).1, fun m h => (accepts _ (there m h)).2, offsets⟩⟩

theorem ReadAlike.symm (alike : ReadAlike bytes place place') : ReadAlike bytes place' place := by
  intro mem' mem holds' holds
  obtain ⟨same, offsets⟩ := alike mem mem' holds holds'
  exact ⟨same.symm, fun seen listed accepted => offsets seen listed (same.trans accepted)⟩

theorem pack_read_alike_iff (bytes : Mem) (place place' : PackPlace len) :
    ReadAlike bytes place place' ↔
      (NeverPasses bytes place ∧ NeverPasses bytes place') ∨
        (PackFits bytes len ∧
          (1 < PackFormat.count bytes → 16 ∣ place.base.toNat ∧ 16 ∣ place'.base.toNat)) := by
  constructor
  · intro alike
    by_cases never : NeverPasses bytes place ∧ NeverPasses bytes place'
    · exact .inl never
    · right
      have both : ∃ uses, place.Settled bytes uses ∧ place'.Settled bytes uses := by
        rw [not_and_or] at never
        unfold NeverPasses at never
        push Not at never
        rcases never with ⟨mem, holds, passes⟩ | ⟨mem, holds, passes⟩
        · exact ⟨_, alike.settled holds passes⟩
        · exact ⟨_, (alike.symm.settled holds passes).symm⟩
      obtain ⟨uses, here, there⟩ := both
      exact ⟨here.fits, fun more => ⟨here.aligned more, there.aligned more⟩⟩
  · rintro (⟨never, never'⟩ | ⟨fits, aligned⟩) mem mem' holds holds'
    · rw [PackFile.accepted_not (never mem holds), PackFile.accepted_not (never' mem' holds')]
      exact ⟨rfl, nofun⟩
    · have uses := holds.uses fits fun more => (aligned more).1
      have uses' := holds'.uses fits fun more => (aligned more).2
      by_cases passes : (place.loaded mem).Passes
      · rw [PackFile.accepted_passes passes,
          PackFile.accepted_passes (holds.passes fits holds' passes), uses, uses']
        refine ⟨rfl, fun seen listed accepted => ?_⟩
        cases accepted
        exact ⟨List.map_map, List.map_map⟩
      · have passes' : ¬(place'.loaded mem').Passes :=
          fun pass => passes (holds'.passes fits holds pass)
        rw [PackFile.accepted_not passes, PackFile.accepted_not passes']
        exact ⟨rfl, nofun⟩

def headerOnly : Mem :=
  write32 (write32 (write32 (write32 (fun _ => 0) 0 nvtMarker) 4 0x7733FF14) 8 1) 12 0xFFFFFFFF

def headerOnlyPlace : PackPlace 16 := ⟨0x80400040, by decide, by decide⟩

theorem child_behind_file :
    ¬∀ (len : BitVec 64) (bytes : Mem) (place place' : PackPlace len),
      ReadAlike bytes place place' := by
  intro all
  have holds : headerOnlyPlace.Holds headerOnly
      fun x => headerOnly (x - headerOnlyPlace.base.toNat) := by
    intro i _
    dsimp only
    rw [Nat.add_sub_cancel_left]
  have passes : (headerOnlyPlace.loaded
      fun x => headerOnly (x - headerOnlyPlace.base.toNat)).Passes := by
    refine ⟨by decide, by decide +kernel, fun _ => ?_⟩
    rw [ne_eq, PackPlace.checkFirst_none]
    exact fun stuck => absurd stuck.1 (by decide)
  have settled := ((all 16 headerOnly headerOnlyPlace headerOnlyPlace).settled holds passes).1
  have inside := settled.first_inside (by decide)
  exact absurd inside (by decide)

end NuMakerMA35
