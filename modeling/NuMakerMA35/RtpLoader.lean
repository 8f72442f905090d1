import NuMakerMA35.Words

namespace NuMakerMA35

open Words

def regionAddrSram0 : Nat := 0x24000000
def regionAddrDdr : Nat := 0x80020000 ||| 0x40000000
def regionMaxsizeSram0 : Nat := 128 * 1024
def regionMaxsizeDdr : Nat := 4 * 1024 * 1024 - regionMaxsizeSram0
def regionMaxsizeLimit : Nat := regionMaxsizeSram0 + regionMaxsizeDdr
def readBlockSize : Nat := 128

structure RtpImage where
  bytes : List (BitVec 8)
  size : bytes.length < 2 ^ 31

def rtMemcpy (mem : Mem) (dst : Nat) (bytes : List (BitVec 8)) : Mem := fun x =>
  if dst ≤ x ∧ x < dst + bytes.length then bytes.getD (x - dst) 0 else mem x

def nuRtpLoadFromMemory (image : RtpImage) (mem : Mem) : Mem × Int :=
  let len : Int := image.bytes.length
  if len = 0 then (mem, -1)
  else if len > regionMaxsizeLimit then (mem, -1)
  else
    let (mem, remaining) :=
      if len > regionMaxsizeSram0 then
        (rtMemcpy mem regionAddrSram0 (image.bytes.take regionMaxsizeSram0), len - regionMaxsizeSram0)
      else (rtMemcpy mem regionAddrSram0 (image.bytes.take len.toNat), len - len)
    if remaining > 0 then
      (rtMemcpy mem regionAddrDdr ((image.bytes.drop regionMaxsizeSram0).take remaining.toNat), 0)
    else (mem, 0)

/-- What a read returns: at least a byte unless the file ends, and less than asked for where it is
short. -/
def rtpRead (want left : Nat) : Nat := min (max 1 want) (min readBlockSize left)

def nuRtpReadLoop (want : Nat → Nat) :
    Nat → Nat → List (BitVec 8) → Nat → Mem → Option (Mem × Int)
  | 0, _, _, _, _ => none
  | turns + 1, i, rest, offset, mem =>
    let buffPtr :=
      if offset < regionMaxsizeSram0 then regionAddrSram0 + offset
      else regionAddrDdr + offset - regionMaxsizeSram0
    if offset + readBlockSize ≥ regionMaxsizeSram0 then some (mem, -1)
    else
      let length := rtpRead (want i) rest.length
      let mem := rtMemcpy mem buffPtr (rest.take length)
      if length ≤ 0 then some (mem, 0)
      else nuRtpReadLoop want turns (i + 1) (rest.drop length) (offset + length) mem

def nuRtpLoadFromFile (want : Nat → Nat) (file : Option RtpImage) (mem : Mem) : Option (Mem × Int) :=
  match file with
  | none => some (mem, -1)
  | some image => nuRtpReadLoop want (image.bytes.length + 1) 0 image.bytes 0 mem

/-- The image is split between the regions, and nothing else is written. -/
structure RtpPlaced (image : RtpImage) (mem mem' : Mem) : Prop where
  sram0 : ∀ i < regionMaxsizeSram0, i < image.bytes.length →
    mem' (regionAddrSram0 + i) = image.bytes.getD i 0
  ddr : ∀ i, regionMaxsizeSram0 + i < image.bytes.length →
    mem' (regionAddrDdr + i) = image.bytes.getD (regionMaxsizeSram0 + i) 0
  others : ∀ x, ¬(regionAddrSram0 ≤ x ∧
      x < regionAddrSram0 + min image.bytes.length regionMaxsizeSram0) →
    ¬(regionAddrDdr ≤ x ∧ x < regionAddrDdr + (image.bytes.length - regionMaxsizeSram0)) →
    mem' x = mem x

def RtpInside (mem mem' : Mem) : Prop :=
  ∀ x, ¬(regionAddrSram0 ≤ x ∧ x < regionAddrSram0 + regionMaxsizeSram0) →
    ¬(regionAddrDdr ≤ x ∧ x < regionAddrDdr + regionMaxsizeDdr) → mem' x = mem x

/-- Both loaders accept the images of a byte to 4 MB and place them alike. -/
def RtpLoadLaw (want : Nat → Nat) (image : RtpImage) : Prop :=
  ∀ mem, ∃ file ret, nuRtpLoadFromFile want (some image) mem = some (file, ret) ∧
    let memory := nuRtpLoadFromMemory image mem
    (ret = 0 ↔ 1 ≤ image.bytes.length ∧ image.bytes.length ≤ regionMaxsizeLimit) ∧
    (memory.2 = 0 ↔ 1 ≤ image.bytes.length ∧ image.bytes.length ≤ regionMaxsizeLimit) ∧
    (ret = 0 → memory.2 = 0 → file = memory.1 ∧ RtpPlaced image mem file) ∧
    RtpInside mem file ∧ RtpInside mem memory.1

/-- The image is not empty and ends a block before SRAM0 does, or it is beyond the limit. -/
def RtpLoadKept (len : Nat) : Prop :=
  1 ≤ len ∧ len + readBlockSize < regionMaxsizeSram0 ∨ regionMaxsizeLimit < len

section Memcpy

variable {mem : Mem} {dst x : Nat} {bytes more : List (BitVec 8)}

theorem rtMemcpy_nil : rtMemcpy mem dst [] = mem := by
  funext x
  exact if_neg fun inside => Nat.lt_irrefl _ (inside.1.trans_lt inside.2)

theorem rtMemcpy_outside (outside : ¬(dst ≤ x ∧ x < dst + bytes.length)) :
    rtMemcpy mem dst bytes x = mem x := if_neg outside

theorem rtMemcpy_at {i : Nat} (inside : i < bytes.length) :
    rtMemcpy mem dst bytes (dst + i) = bytes.getD i 0 := by
  rw [rtMemcpy, if_pos ⟨by omega, by omega⟩, Nat.add_sub_cancel_left]

theorem rtMemcpy_append :
    rtMemcpy (rtMemcpy mem dst bytes) (dst + bytes.length) more = rtMemcpy mem dst (bytes ++ more) := by
  funext x
  unfold rtMemcpy
  rw [List.length_append]
  by_cases first : x < dst + bytes.length
  · rw [if_neg (by omega)]
    by_cases start : dst ≤ x
    · rw [if_pos ⟨start, first⟩, if_pos ⟨start, by omega⟩, List.getD_append _ _ _ _ (by omega)]
    · rw [if_neg (by omega), if_neg (by omega)]
  · by_cases second : x < dst + bytes.length + more.length
    · rw [if_pos ⟨by omega, second⟩, if_pos ⟨by omega, by omega⟩,
        List.getD_append_right _ _ _ _ (by omega), Nat.sub_sub]
    · rw [if_neg (by omega), if_neg (by omega), if_neg (by omega)]

end Memcpy

theorem nuRtpReadLoop_eq {want : Nat → Nat} {bytes : List (BitVec 8)} {mem : Mem}
    {turns i offset : Nat} (front : offset ≤ bytes.length) (inside : offset < regionMaxsizeSram0)
    (enough : bytes.length - offset < turns) :
    ∃ k ≤ bytes.length, k < regionMaxsizeSram0 ∧
      nuRtpReadLoop want turns i (bytes.drop offset) offset
          (rtMemcpy mem regionAddrSram0 (bytes.take offset)) =
        some (rtMemcpy mem regionAddrSram0 (bytes.take k),
          if bytes.length + readBlockSize < regionMaxsizeSram0 then 0 else -1) ∧
      (bytes.length + readBlockSize < regionMaxsizeSram0 → k = bytes.length) := by
  induction turns generalizing i offset with
  | zero => omega
  | succ turns ih =>
    rw [nuRtpReadLoop]
    dsimp only
    by_cases limit : offset + readBlockSize ≥ regionMaxsizeSram0
    · refine ⟨offset, front, inside, ?_, fun small => by omega⟩
      rw [if_pos limit, if_neg (by omega)]
    rw [if_neg limit, if_pos inside, List.length_drop]
    have least : bytes.length - offset ≠ 0 → rtpRead (want i) (bytes.length - offset) ≠ 0 := by
      rw [rtpRead, readBlockSize]
      omega
    have most : rtpRead (want i) (bytes.length - offset) ≤ bytes.length - offset := by
      rw [rtpRead]
      omega
    have block : rtpRead (want i) (bytes.length - offset) ≤ readBlockSize := by
      rw [rtpRead]
      omega
    generalize rtpRead (want i) (bytes.length - offset) = length at least most block
    by_cases last : length ≤ 0
    · -- The file ends here.
      have whole : offset = bytes.length := by omega
      refine ⟨offset, front, inside, ?_, fun _ => whole⟩
      rw [if_pos last, Nat.le_zero.1 last, List.take_zero, rtMemcpy_nil, if_pos (by omega)]
    · have taken : (bytes.take offset).length = offset := List.length_take_of_le front
      have next : rtMemcpy (rtMemcpy mem regionAddrSram0 (bytes.take offset))
          (regionAddrSram0 + offset) ((bytes.drop offset).take length) =
            rtMemcpy mem regionAddrSram0 (bytes.take (offset + length)) := by
        have append := @rtMemcpy_append mem regionAddrSram0 (bytes.take offset)
          ((bytes.drop offset).take length)
        rw [taken] at append
        rw [append, List.take_add]
      rw [if_neg last, List.drop_drop, next]
      exact ih (by omega) (by omega) (by omega)

theorem rtpPlaced_of_memcpy (image : RtpImage) (mem : Mem) :
    RtpPlaced image mem (rtMemcpy (rtMemcpy mem regionAddrSram0 (image.bytes.take regionMaxsizeSram0))
      regionAddrDdr (image.bytes.drop regionMaxsizeSram0)) := by
  have apart : regionAddrSram0 + regionMaxsizeSram0 ≤ regionAddrDdr := by decide
  constructor
  · intro i inside within
    rw [rtMemcpy_outside (by omega), rtMemcpy_at (by rw [List.length_take]; omega)]
    rw [List.getD_eq_getElem?_getD, List.getElem?_take_of_lt inside, List.getD_eq_getElem?_getD]
  · intro i within
    rw [rtMemcpy_at (by rw [List.length_drop]; omega), List.getD_eq_getElem?_getD,
      List.getElem?_drop, List.getD_eq_getElem?_getD]
  · intro x first second
    rw [rtMemcpy_outside (by rw [List.length_drop]; exact second),
      rtMemcpy_outside (by rw [List.length_take, Nat.min_comm]; exact first)]

theorem nuRtpLoadFromMemory_eq (image : RtpImage) (mem : Mem) :
    nuRtpLoadFromMemory image mem =
      if 1 ≤ image.bytes.length ∧ image.bytes.length ≤ regionMaxsizeLimit then
        (rtMemcpy (rtMemcpy mem regionAddrSram0 (image.bytes.take regionMaxsizeSram0))
          regionAddrDdr (image.bytes.drop regionMaxsizeSram0), 0)
      else (mem, -1) := by
  unfold nuRtpLoadFromMemory
  dsimp only
  by_cases none : (image.bytes.length : Int) = 0
  · rw [if_pos none, if_neg (by omega)]
  by_cases large : (image.bytes.length : Int) > regionMaxsizeLimit
  · rw [if_neg none, if_pos large, if_neg (by omega)]
  have range : 1 ≤ image.bytes.length ∧ image.bytes.length ≤ regionMaxsizeLimit :=
    ⟨by omega, by omega⟩
  rw [if_neg none, if_neg large, if_pos range]
  by_cases both : (image.bytes.length : Int) > regionMaxsizeSram0
  · have rest : (image.bytes.drop regionMaxsizeSram0).length ≤
        ((image.bytes.length : Int) - regionMaxsizeSram0).toNat := by
      rw [List.length_drop]
      omega
    rw [if_pos both]
    dsimp only
    rw [if_pos (by omega), List.take_of_length_le rest]
  · have small : image.bytes.length ≤ regionMaxsizeSram0 := by omega
    rw [if_neg both]
    dsimp only
    rw [if_neg (by omega), Int.toNat_natCast, List.take_of_length_le le_rfl,
      List.take_of_length_le small, List.drop_eq_nil_of_le small, rtMemcpy_nil]

theorem rtpPlaced_inside {image : RtpImage} {mem mem' : Mem} (placed : RtpPlaced image mem mem')
    (small : image.bytes.length ≤ regionMaxsizeLimit) : RtpInside mem mem' := by
  intro x first second
  have limit : regionMaxsizeLimit = regionMaxsizeSram0 + regionMaxsizeDdr := rfl
  exact placed.others x (by omega) (by omega)

theorem rtpFront_inside {bytes : List (BitVec 8)} {mem : Mem} {k : Nat} (some : k < regionMaxsizeSram0) :
    RtpInside mem (rtMemcpy mem regionAddrSram0 (bytes.take k)) := by
  intro x first _
  apply rtMemcpy_outside
  rw [List.length_take]
  omega

theorem nuRtpLoadFromFile_eq (want : Nat → Nat) (image : RtpImage) (mem : Mem) :
    ∃ k ≤ image.bytes.length, k < regionMaxsizeSram0 ∧
      nuRtpLoadFromFile want (some image) mem =
        some (rtMemcpy mem regionAddrSram0 (image.bytes.take k),
          if image.bytes.length + readBlockSize < regionMaxsizeSram0 then 0 else -1) ∧
      (image.bytes.length + readBlockSize < regionMaxsizeSram0 → k = image.bytes.length) := by
  have run := @nuRtpReadLoop_eq want image.bytes mem (image.bytes.length + 1) 0 0
    (Nat.zero_le _) (by decide) (by omega)
  rw [List.take_zero, rtMemcpy_nil, List.drop_zero] at run
  exact run

theorem rtMemcpy_regions {bytes : List (BitVec 8)} (mem : Mem)
    (fits : bytes.length ≤ regionMaxsizeSram0) :
    rtMemcpy (rtMemcpy mem regionAddrSram0 (bytes.take regionMaxsizeSram0))
        regionAddrDdr (bytes.drop regionMaxsizeSram0) =
      rtMemcpy mem regionAddrSram0 bytes := by
  rw [List.take_of_length_le fits, List.drop_eq_nil_of_le fits, rtMemcpy_nil]

/-- For every image and every pattern of short reads the two loaders accept the same images, those
of a byte to 4 MB, and place them alike, just when the image is shorter than SRAM0 by more than a
block and not empty, or longer than the limit. -/
theorem rtp_load_iff (want : Nat → Nat) (image : RtpImage) :
    RtpLoadLaw want image ↔ RtpLoadKept image.bytes.length := by
  have sizes : readBlockSize < regionMaxsizeSram0 ∧ regionMaxsizeSram0 < regionMaxsizeLimit := by
    decide
  constructor
  · intro law
    obtain ⟨file, ret, run, accepts, -⟩ := law fun _ => 0
    obtain ⟨k, -, -, run', -⟩ := nuRtpLoadFromFile_eq want image fun _ => 0
    obtain ⟨-, same⟩ := Prod.mk.inj (Option.some.inj (run.symm.trans run'))
    rw [same] at accepts
    rw [RtpLoadKept]
    by_cases short : image.bytes.length + readBlockSize < regionMaxsizeSram0
    · rw [if_pos short] at accepts
      exact .inl ⟨(accepts.1 rfl).1, short⟩
    · rw [if_neg short] at accepts
      by_contra kept
      exact absurd (accepts.2 ⟨by omega, by omega⟩) (by decide)
  · intro kept mem
    obtain ⟨k, most, inside, run, all⟩ := nuRtpLoadFromFile_eq want image mem
    refine ⟨_, _, run, ?_⟩
    rw [nuRtpLoadFromMemory_eq]
    have placed := rtpPlaced_of_memcpy image mem
    by_cases short : image.bytes.length + readBlockSize < regionMaxsizeSram0
    · have range : 1 ≤ image.bytes.length ∧ image.bytes.length ≤ regionMaxsizeLimit := by
        rw [RtpLoadKept] at kept
        omega
      rw [rtMemcpy_regions mem (by omega)] at placed ⊢
      rw [if_pos short, if_pos range, all short, List.take_of_length_le le_rfl]
      exact ⟨iff_of_true rfl range, iff_of_true rfl range, fun _ _ => ⟨rfl, placed⟩,
        rtpPlaced_inside placed range.2, rtpPlaced_inside placed range.2⟩
    · have beyond : ¬(1 ≤ image.bytes.length ∧ image.bytes.length ≤ regionMaxsizeLimit) := by
        rw [RtpLoadKept] at kept
        omega
      have failed : ¬(-1 : Int) = 0 := by decide
      rw [if_neg short, if_neg beyond]
      exact ⟨iff_of_false failed beyond, iff_of_false failed beyond, fun zero => absurd zero failed,
        rtpFront_inside inside, fun x _ _ => rfl⟩

/-- An empty image is accepted from a file and refused from memory. -/
theorem emptyImage_accepted : ¬RtpLoadLaw (fun _ => 128) ⟨[], by decide⟩ := by
  intro law
  obtain ⟨file, ret, run, accepts, -⟩ := law fun _ => 0
  have empty : nuRtpLoadFromFile (fun _ => 128) (some ⟨[], by decide⟩) (fun _ => 0) =
      some (rtMemcpy (fun _ => 0) regionAddrSram0 [], 0) := rfl
  rw [empty] at run
  cases run
  exact absurd (accepts.1 rfl).1 (by decide)

end NuMakerMA35
