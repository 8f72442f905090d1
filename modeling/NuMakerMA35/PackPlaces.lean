import NuMakerMA35.PackChecksum

namespace NuMakerMA35

open Words

/-- What a child is used with: where its image starts in the buffer, how long it is and where on the
device it goes. -/
structure PackUse where
  imageOffset : Nat
  imageLength : BitVec 64
  flashAddress : BitVec 64
deriving DecidableEq, Repr

namespace PackFile

variable (file : PackFile)

def offset (a : Nat) : Nat := (a + 2 ^ 32 - file.base.toNat) % 2 ^ 32

def checkImageInfos (bootInfo : Nat) : Nat → Nat → Int
  | 0, _ => 0
  | n + 1, i =>
    if 4 < (file.word (bootInfo + 40 + i * PackBuf.imageInfoSize + 12)).toNat then -1
    else checkImageInfos bootInfo n (i + 1)

/-- `none` if the sum does not end. -/
def nuwriterCheckBootInfo (bootInfo length : Nat) : Option Int :=
  if file.word bootInfo ≠ nvtMarker then some (-1)
  else (file.crc32 (bootInfo + 8) length).map fun sum =>
    if sum ≠ file.word (bootInfo + 4) then -1
    else
      let count := (file.word (bootInfo + 36)).toNat
      if 4 < count then -1 else file.checkImageInfos bootInfo count 0

/-- The check of the boot info of the first child, of which only matters that it ends. -/
def checkFirst (child : Nat) : Option Int :=
  file.nuwriterCheckBootInfo (file.offset (child + packChildSize))
    (((file.child child).imageLength.toNat + 2 ^ 64 - 8) % 2 ^ 32)

/-- The children that the loop of `nuwriter_pack_verify` passes, with `n` of them to go. -/
@[grind =] def verifyChildren : Nat → Nat → Nat → Option (List Nat)
  | 0, _, _ => some []
  | n + 1, i, child =>
    if i = 0 ∧ file.checkFirst child = none then none
    else if n = 0 then some [child]
    else (verifyChildren n (i + 1)
      (PackBuf.nextChild child (file.child child).imageLength.toNat)).map (child :: ·)

def firstChild : Nat := (file.base.toNat + packHdrSize) % 2 ^ 32

/-- What is returned, with the children that were passed; `none` if it does not end. -/
def nuwriterPackVerify : Option (Int × List Nat) :=
  if file.base = 0 ∨ file.len = 0 then some (-1, [])
  else
    match file.headerOk with
    | none => none
    | some false => some (-1, [])
    | some true => (file.verifyChildren file.count 0 file.firstChild).map fun seen => (0, seen)

/-- The children that `nuwriter_pack_program` lists, `n` of them from an address on. -/
def childList : Nat → Nat → List Nat
  | 0, _ => []
  | n + 1, child =>
    child :: childList n (PackBuf.nextChild child (file.child child).imageLength.toNat)

def use (child : Nat) : PackUse :=
  ⟨file.offset (child + packChildSize), (file.child child).imageLength,
    (file.child child).flashAddress⟩

/-- The children of a file that is accepted: those `nuwriter_pack_verify` passed, and those that
`nuwriter_pack_program` then takes. -/
def accepted : Option (List PackUse × List PackUse) :=
  match file.nuwriterPackVerify with
  | some (0, seen) =>
    some (seen.map file.use, (file.childList file.count file.firstChild).map file.use)
  | _ => none

def Passes : Prop :=
  ¬(file.base = 0 ∨ file.len = 0) ∧ file.headerOk = some true ∧
    (0 < file.count → file.checkFirst file.firstChild ≠ none)

end PackFile

structure PackPlace (len : BitVec 64) where
  base : U32
  notNull : base ≠ 0
  inSpace : base.toNat + len.toNat ≤ 2 ^ 32

namespace PackPlace

variable {len : BitVec 64} (place : PackPlace len)

/-- The bytes of the file are in memory at its place. Of the other bytes nothing is known. -/
def Holds (bytes mem : Mem) : Prop := ∀ i, i < len.toNat → mem (place.base.toNat + i) = bytes i

def loaded (mem : Mem) : PackFile := ⟨mem, place.base, len⟩

end PackPlace

namespace PackFormat

variable (bytes : Mem)

def count : Nat := (read32 bytes 8).toNat

def imageLength (child : Nat) : BitVec 64 := read32 bytes (child + 4) ++ read32 bytes child

def flashAddress (child : Nat) : BitVec 64 := read32 bytes (child + 12) ++ read32 bytes (child + 8)

/-- Where the children of a file start: the first behind the header, and each later one behind the
image before it, at the next multiple of 16. -/
def child : Nat → Nat
  | 0 => packHdrSize
  | k + 1 =>
    (child k + packChildSize + (imageLength bytes (child k)).toNat + 15) / imageBoundarySize *
      imageBoundarySize

def imageOffsets : List Nat := (List.range (count bytes)).map fun k => child bytes k + packChildSize

end PackFormat

variable {len : BitVec 64}

/-- Wherever the file is loaded the same children are used, at the offsets of the file format. -/
def ReadAlike (bytes : Mem) (place place' : PackPlace len) : Prop :=
  ∀ mem mem', place.Holds bytes mem → place'.Holds bytes mem' →
    (place.loaded mem).accepted = (place'.loaded mem').accepted ∧
      ∀ seen listed, (place.loaded mem).accepted = some (seen, listed) →
        seen.map PackUse.imageOffset = PackFormat.imageOffsets bytes ∧
          listed.map PackUse.imageOffset = PackFormat.imageOffsets bytes

def NeverPasses (bytes : Mem) (place : PackPlace len) : Prop :=
  ∀ mem, place.Holds bytes mem → ¬(place.loaded mem).Passes

/-- All that is read of the children lies in the file, and so do the words of the checksums. -/
structure PackFits (bytes : Mem) (len : BitVec 64) : Prop where
  header : packHdrSize ≤ len.toNat
  words : 4 ∣ len.toNat
  children : ∀ k, k < PackFormat.count bytes → PackFormat.child bytes k + 16 ≤ len.toNat
  bootInfo : 0 < PackFormat.count bytes →
    5 ≤ (PackFormat.imageLength bytes packHdrSize).toNat % 2 ^ 32 →
    (PackFormat.imageLength bytes packHdrSize).toNat % 2 ^ 32 ≤ 7 → 44 ≤ len.toNat

namespace PackFile

variable {file : PackFile}

theorem verifyChildren_later {n i child : Nat} (later : i ≠ 0) :
    file.verifyChildren n i child = some (file.childList n child) := by
  induction n generalizing i child with
  | zero => rfl
  | succ n ih =>
    rw [verifyChildren, if_neg fun both => later both.1]
    by_cases last : n = 0
    · rw [if_pos last, last]
      rfl
    · rw [if_neg last, ih (by omega)]
      rfl

theorem verifyChildren_eq {n child : Nat} (ends : 0 < n → file.checkFirst child ≠ none) :
    file.verifyChildren n 0 child = some (file.childList n child) := by
  cases n with
  | zero => rfl
  | succ n =>
    rw [verifyChildren, if_neg fun both => ends (by omega) both.2]
    by_cases last : n = 0
    · rw [if_pos last, last]
      rfl
    · rw [if_neg last, verifyChildren_later (by omega)]
      rfl

theorem verifyChildren_stuck {n child : Nat} (some_ : 0 < n)
    (stuck : file.checkFirst child = none) : file.verifyChildren n 0 child = none := by
  cases n with
  | zero => omega
  | succ n => rw [verifyChildren, if_pos ⟨rfl, stuck⟩]

def uses (file : PackFile) : List PackUse :=
  (file.childList file.count file.firstChild).map file.use

theorem accepted_passes (passes : file.Passes) : file.accepted = some (file.uses, file.uses) := by
  obtain ⟨given, header, ends⟩ := passes
  rw [accepted, nuwriterPackVerify, if_neg given, header]
  dsimp only
  rw [verifyChildren_eq ends]
  rfl

theorem accepted_not (not : ¬file.Passes) : file.accepted = none := by
  rw [accepted, nuwriterPackVerify]
  by_cases given : file.base = 0 ∨ file.len = 0
  · rw [if_pos given]
    rfl
  rw [if_neg given]
  cases header : file.headerOk with
  | none => rfl
  | some good =>
    cases good with
    | false => rfl
    | true =>
      dsimp only
      have stuck : 0 < file.count ∧ file.checkFirst file.firstChild = none := by
        by_contra ends
        rw [not_and] at ends
        exact not ⟨given, header, ends⟩
      rw [verifyChildren_stuck stuck.1 stuck.2]
      rfl

def childAt (file : PackFile) (child : Nat) : Nat → Nat
  | 0 => child
  | k + 1 =>
    PackBuf.nextChild (childAt file child k) (file.child (childAt file child k)).imageLength.toNat

theorem childAt_next {child k : Nat} :
    file.childAt (PackBuf.nextChild child (file.child child).imageLength.toNat) k =
      file.childAt child (k + 1) := by
  induction k with
  | zero => rfl
  | succ k ih => rw [childAt, ih, childAt, childAt, childAt]

theorem childList_eq {n child : Nat} :
    file.childList n child = (List.range n).map (file.childAt child) := by
  induction n generalizing child with
  | zero => rfl
  | succ n ih =>
    rw [childList, ih, List.range_succ_eq_map, List.map_cons, List.map_map]
    congr 1
    exact List.map_congr_left fun k _ => childAt_next

theorem uses_eq : file.uses =
    (List.range file.count).map fun k => file.use (file.childAt file.firstChild k) := by
  rw [uses, childList_eq, List.map_map]
  rfl

end PackFile

theorem packAlign_eq {size : Nat} : packAlign size = (size + 15) % 2 ^ 64 / 16 * 16 :=
  and_high_mask (Nat.mod_lt _ (by decide)) (by decide : 4 ≤ 64)

theorem nextChild_eq {child imageLength : Nat} : PackBuf.nextChild child imageLength =
    (child + packChildSize + imageLength + 15) / 16 * 16 % 2 ^ 32 := by
  rw [PackBuf.nextChild, packAlign_eq]
  omega

end NuMakerMA35
