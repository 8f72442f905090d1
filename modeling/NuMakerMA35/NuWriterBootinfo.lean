import NuMakerMA35.Logged
import NuMakerMA35.NuWriterBounds
import Mathlib.Data.List.MinMax

namespace NuMakerMA35

open Words

inductive BootSrc where
  | qspi0Nor
  | qspi0Nand
  | sdEmmc0
  | sdEmmc1
  | rawNand
  | usbd
  | usbh0
  | usbh1
  deriving DecidableEq, Repr

structure HdrInfo where
  szDevName : Option String
  hdrOffset : U32 × U32

def sHdrInfo : BootSrc → HdrInfo
  | .qspi0Nor => ⟨some "sf_whole", (0, 1)⟩
  | .qspi0Nand => ⟨some "nand2", (0, 1)⟩
  | .sdEmmc0 => ⟨some "sd0", (2, 3)⟩
  | .sdEmmc1 => ⟨some "sd1", (2, 3)⟩
  | .rawNand => ⟨some "rawnd2", (0, 1)⟩
  | .usbd => ⟨none, (0, 0)⟩
  | .usbh0 => ⟨some "udisk0", (0, 0)⟩
  | .usbh1 => ⟨some "udisk0", (0, 0)⟩

/-- A device that can be opened: what it answers to a read of one unit, a page of an MTD device
or a sector of a block device, if the read succeeds. -/
inductive BootStorage where
  | mtd (pageSize pagesPerBlock : U32) (page : U32 → Option Mem)
  | block (bytesPerSector : Option U32) (sector : U32 → Option Mem)
  | other

structure BootDevice where
  opens : Bool
  bufAllocated : Bool
  storage : BootStorage

def bootInfoSize : Nat := 360

/-- The buffer for one unit; addresses are counted from its begin. -/
def unitBuf (mem : Mem) (size : U32) : PackBuf := ⟨mem, 0, size.toNat, by have := size.isLt; omega⟩

abbrev Bootinfo (α : Type) := Logged PackFault U32 α

/-- The version of the newest header so far, and what was copied to the caller. -/
abbrev Newest := U32 × Option (List (BitVec 8))

namespace PackBuf

variable (b : PackBuf)

/-- What the loop of `nuwriter_get_bootinfo` does with the unit that was read. -/
def bootinfoUnit (newer : Newest) : Except PackFault Newest := do
  let length ← b.word32 8
  if bootInfoSize < length.toNat then pure newer
  else
    let checked ← b.nuwriterCheckBootInfo 0 length.toNat
    if checked = 0 then
      let version ← b.word32 12
      if newer.1 < version then
        b.copyOut 0 bootInfoSize
        pure (version, some (slice b.mem 0 bootInfoSize))
      else pure newer
    else pure newer

end PackBuf

def BootStorage.unit : BootStorage → U32 → Option (U32 × U32 × Option Mem)
  | .mtd pageSize pagesPerBlock page, offset =>
    let unitSize := pagesPerBlock * pageSize
    some (offset * unitSize, pageSize, page (offset * unitSize))
  | .block (some bytesPerSector) sector, offset => some (offset, bytesPerSector, sector offset)
  | .block none _, _ => none
  | .other, _ => none

/-- One turn of the loop; `none` is the way out where a read fails. -/
def bootinfoTurn (storage : BootStorage) (offset : U32) (newer : Newest) :
    Bootinfo (Option Newest) :=
  match storage.unit offset with
  | none => pure none
  | some (place, size, mem) => do
    Logged.issue place fun _ => ()
    match mem with
    | none => pure none
    | some mem => do
      let newer ← Logged.lift ((unitBuf mem size).bootinfoUnit newer)
      pure (some newer)

/-- Whether the storage has a geometry, and of which the size is not 0. -/
def BootStorage.usable : BootStorage → Bool
  | .mtd _ _ _ => true
  | .block (some bytesPerSector) _ => bytesPerSector ≠ 0
  | .block none _ => false
  | .other => false

/-- `nuwriter_get_bootinfo` with a place for the header: what it returns and what it copied. -/
def nuwriterGetBootinfo (bootsrc : BootSrc) (find : String → Option BootDevice) :
    Bootinfo (Int × Option (List (BitVec 8))) :=
  match bootsrc with
  | .usbd | .usbh0 | .usbh1 => pure (-1, none)
  | bootsrc =>
    match (sHdrInfo bootsrc).szDevName with
    | none => pure (-2, none)
    | some szDevName =>
      match find szDevName with
      | none => pure (-3, none)
      | some device =>
        if !device.opens then pure (-4, none)
        else if !device.storage.usable || !device.bufAllocated then pure (-1, none)
        else do
          let first ← bootinfoTurn device.storage (sHdrInfo bootsrc).hdrOffset.1 (0, none)
          match first with
          | none => pure (-1, none)
          | some newer => do
            let second ← bootinfoTurn device.storage (sHdrInfo bootsrc).hdrOffset.2 newer
            match second with
            | none => pure (-1, newer.2)
            | some newer => pure (0, newer.2)

namespace PackBuf

variable (b : PackBuf)

def imageType (i : Nat) : U32 := b.get32 (40 + i * imageInfoSize + 12)

/-- A boot info header as its comment and its checks describe it: length, marker, checksum from
the length on, at most four images, of known types. -/
def ValidHeader : Prop :=
  (b.get32 8).toNat ≤ bootInfoSize ∧ b.get32 0 = nvtMarker ∧
    b.crcSum 8 (b.get32 8).toNat = b.get32 4 ∧ (b.get32 36).toNat ≤ 4 ∧
    ∀ i, i < (b.get32 36).toNat → (b.imageType i).toNat ≤ 4

instance : Decidable b.ValidHeader := inferInstanceAs (Decidable (_ ∧ _))

def version : U32 := b.get32 12

def header : List (BitVec 8) := slice b.mem 0 bootInfoSize

/-- The unit holds a header, and all that a checksum of at most its size counts. -/
def HoldsHeader : Prop := b.base = 0 ∧ bootInfoSize + 8 ≤ b.len

variable {b}

theorem HoldsHeader.inside (h : b.HoldsHeader) {a n : Nat} (low : a + n ≤ bootInfoSize + 8) :
    b.Inside a n := by
  obtain ⟨zero, long⟩ := h
  exact ⟨by omega, by omega⟩

theorem checkImageInfos_value (h : b.HoldsHeader) {n : Nat} : ∀ {i : Nat}, i + n ≤ 4 →
    b.checkImageInfos 0 n i = .ok (if ∀ k, k < n → (b.imageType (i + k)).toNat ≤ 4 then 0 else -1) := by
  induction n with
  | zero =>
    intro i _
    simp [checkImageInfos]
  | succ n ih =>
    intro i few
    have inside : b.Inside (0 + 40 + i * imageInfoSize + 12) 4 := by
      refine h.inside ?_
      show 0 + 40 + i * 80 + 12 + 4 ≤ 360 + 8
      omega
    have type_ : b.get32 (0 + 40 + i * imageInfoSize + 12) = b.imageType i := by
      rw [Nat.zero_add]
      rfl
    unfold checkImageInfos
    rw [word32_inside inside, ok_bind, type_]
    by_cases unknown : 4 < (b.imageType i).toNat
    · rw [if_pos unknown, if_neg]
      · rfl
      · intro all
        exact absurd (all 0 (by omega)) (Nat.not_le.mpr unknown)
    · rw [if_neg unknown, ih (by omega)]
      have same : (∀ k, k < n → (b.imageType (i + 1 + k)).toNat ≤ 4) ↔
          ∀ k, k < n + 1 → (b.imageType (i + k)).toNat ≤ 4 := by
        constructor
        · intro later k below
          cases k with
          | zero => exact Nat.not_lt.mp unknown
          | succ k =>
            have next := later k (by omega)
            rwa [show i + 1 + k = i + (k + 1) by omega] at next
        · intro all k below
          have next := all (k + 1) (by omega)
          rwa [show i + (k + 1) = i + 1 + k by omega] at next
      simp only [same]

theorem checkBootInfo_value (h : b.HoldsHeader) (short : (b.get32 8).toNat ≤ bootInfoSize) :
    b.nuwriterCheckBootInfo 0 (b.get32 8).toNat = .ok (if b.ValidHeader then 0 else -1) := by
  have crcFits : b.CrcFits (0 + 8) (b.get32 8).toNat := by
    right
    refine h.inside ?_
    unfold bootInfoSize at *
    omega
  have marker := word32_inside (h.inside (a := 0) (n := 4) (by decide))
  have sum := word32_inside (h.inside (a := 0 + 4) (n := 4) (by decide))
  have count := word32_inside (h.inside (a := 0 + 36) (n := 4) (by decide))
  unfold nuwriterCheckBootInfo ValidHeader
  rw [marker, ok_bind, crc32_fits crcFits, ok_bind, sum, ok_bind, count, ok_bind]
  simp only [Nat.zero_add, short, true_and]
  by_cases marked : b.get32 0 = nvtMarker
  · by_cases summed : b.crcSum 8 (b.get32 8).toNat = b.get32 4
    · by_cases few : (b.get32 36).toNat ≤ 4
      · rw [if_neg (not_not.mpr marked), if_neg (not_not.mpr summed), if_neg (Nat.not_lt.mpr few),
          checkImageInfos_value h (by omega)]
        simp only [Nat.zero_add, marked, summed, few, true_and]
      · rw [if_neg (not_not.mpr marked), if_neg (not_not.mpr summed), if_pos (Nat.not_le.mp few),
          if_neg (fun valid => few valid.2.2.1)]
        rfl
    · rw [if_neg (not_not.mpr marked), if_pos summed, if_neg (fun valid => summed valid.2.1)]
      rfl
  · rw [if_pos marked, if_neg (fun valid => marked valid.1)]
    rfl

/-- The newer of the two, as the loop takes it: only a greater version counts, and 0 is the start. -/
def takeNewer (newer : Newest) (b : PackBuf) : Newest :=
  if b.ValidHeader ∧ newer.1 < b.version then (b.version, some b.header) else newer

theorem bootinfoUnit_value (h : b.HoldsHeader) (newer : Newest) :
    b.bootinfoUnit newer = .ok (takeNewer newer b) := by
  have length := word32_inside (h.inside (a := 8) (n := 4) (by decide))
  have version_ := word32_inside (h.inside (a := 12) (n := 4) (by decide))
  have copied : b.copyOut 0 bootInfoSize = .ok () := if_pos (.inr (h.inside (by omega)))
  unfold bootinfoUnit takeNewer
  rw [length, ok_bind]
  by_cases long : bootInfoSize < (b.get32 8).toNat
  · rw [if_pos long, if_neg (fun both => Nat.not_le.mpr long both.1.1)]
    rfl
  rw [if_neg long, checkBootInfo_value h (Nat.not_lt.mp long), ok_bind]
  by_cases valid : b.ValidHeader
  · rw [if_pos valid, if_pos rfl, version_, ok_bind]
    by_cases more : newer.1 < b.get32 12
    · rw [if_pos more, if_pos ⟨valid, more⟩, copied]
      rfl
    · rw [if_neg more, if_neg (fun both => more both.2)]
      rfl
  · rw [if_neg valid, if_neg (show ¬(-1 : Int) = 0 by decide), if_neg (fun both => valid both.1)]
    rfl

end PackBuf

end NuMakerMA35
