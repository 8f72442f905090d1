import NuMakerMA35.NfiEcc

namespace NuMakerMA35

def parityNum : Nat → BchStrength → Nat
  | 0, .t8 => 60
  | 0, .t12 => 92
  | 0, .t24 => 90
  | 1, .t8 => 120
  | 1, .t12 => 184
  | 1, .t24 => 180
  | 2, .t8 => 240
  | 2, .t12 => 368
  | 2, .t24 => 360
  | _, _ => 0

/-- What `board_nand_init` sets for a chip; `eccbytes` is the member of the OOB layout. -/
structure NfiBoard where
  writesize : Nat
  oobsize : Nat
  bchAlgo : BchStrength
  eccbytes : Nat
  smraSize : Nat
  eccBytes : Nat
  eccSize : Nat

def boardNandInit (writesize oobsize : Nat) : Option NfiBoard :=
  let bchAlgo :=
    if writesize = 2048 then some BchStrength.t8
    else if writesize = 4096 then some BchStrength.t12
    else if writesize = 8192 then some BchStrength.t24
    else none
  bchAlgo.map fun bch =>
    let parity := parityNum (writesize >>> 12) bch
    { writesize := writesize
      oobsize := oobsize
      bchAlgo := bch
      eccbytes := parity
      smraSize := oobsize
      eccBytes := parity
      eccSize := writesize }

/-- The redundancy registers, `chip->oob_poi`, and the redundancy area as it is programmed;
`copies` are the parts of `oob_poi` copied, each an offset and a length. -/
structure NfiOob where
  ra : Nat → Byte
  oobPoi : Nat → Byte
  image : Nat → Byte
  copies : List (Nat × Nat)

namespace NfiOob

variable (s : NfiOob)

def copyToRa (n : Int) : Option NfiOob :=
  if n < 0 then none
  else some { s with
    ra := fun k => if k < n.toNat then s.oobPoi k else s.ra k
    copies := s.copies ++ [(0, n.toNat)] }

def copyToOob (oob ra n : Nat) : NfiOob := { s with
  oobPoi := fun k => if oob ≤ k ∧ k < oob + n then s.ra (ra + (k - oob)) else s.oobPoi k
  copies := s.copies ++ [(oob, n)] }

end NfiOob

namespace NfiBoard

variable (b : NfiBoard)

def eccTotal : Nat := b.writesize / b.eccSize * b.eccBytes

def parityBytes : Nat := b.bchAlgo.parityLen * (b.writesize / b.bchAlgo.fieldLen)

/-- What the transfer of a page does to the redundancy: it is marked as written, and the
controller puts the parity codes at the bottom of it and programs as much as the nine bits of
`NANDRACTL` say. -/
def dmaWrite (parity : Nat → Byte) (s : NfiOob) : NfiOob :=
  let ra := if s.ra 3 = 0xff then Function.update s.ra 3 0 else s.ra
  let ra := if ra 2 = 0xff then Function.update ra 2 0 else ra
  let size := b.smraSize % 2 ^ 9
  let ra := fun k =>
    if size - b.parityBytes ≤ k ∧ k < size then parity (k - (size - b.parityBytes)) else ra k
  { s with
    ra := ra
    image := fun k => if k < size then ra k else 0xff }

def nfiNandWritePageHwecc (parity : Nat → Byte) (s : NfiOob) : Option NfiOob :=
  let s := { s with ra := fun k => if k < b.oobsize then 0xff else s.ra k, copies := [] }
  match s.copyToRa ((b.oobsize : Int) - b.eccTotal) with
  | none => none
  | some s =>
    -- by way of `ecc_calc`, which holds more than any parity
    some ((b.dmaWrite parity s).copyToOob b.eccbytes (b.oobsize - b.eccTotal) b.eccTotal)

/-- Where no bit has failed the transfer leaves the registers as they are. -/
def nfiNandReadPageHweccOobFirst (s : NfiOob) : Option NfiOob :=
  let s := { s with oobPoi := fun k => if k < b.oobsize then s.image k else s.oobPoi k, copies := [] }
  match s.copyToRa b.oobsize with
  | none => none
  | some s => some (s.copyToOob 0 0 b.oobsize)

/-- Behind a write all copies lay inside of the OOB, the image programmed is what `oob_poi` holds,
its last bytes are the parity, and a read gives the same. -/
structure OobKept (parity : Nat → Byte) (t : NfiOob) : Prop where
  inside : ∀ copy, copy ∈ t.copies → copy.1 + copy.2 ≤ b.oobsize
  agree : ∀ k, k < b.oobsize → t.image k = t.oobPoi k
  parityLast : ∀ j, j < b.eccTotal → t.oobPoi (b.oobsize - b.eccTotal + j) = parity j
  readBack : ∀ ra oobPoi, ∃ u,
    b.nfiNandReadPageHweccOobFirst { t with ra := ra, oobPoi := oobPoi } = some u ∧
      (∀ copy, copy ∈ u.copies → copy.1 + copy.2 ≤ b.oobsize) ∧
        ∀ k, k < b.oobsize → u.oobPoi k = t.oobPoi k

end NfiBoard

structure NfiBoard.Accepted (b : NfiBoard) : Prop where
  smraSize : b.smraSize = b.oobsize
  eccTotal : b.eccTotal = b.eccbytes
  parityBytes : b.parityBytes = b.eccbytes
  large : 60 ≤ b.eccbytes

theorem boardNandInit_accepted {writesize oobsize : Nat} {b : NfiBoard}
    (accepted : boardNandInit writesize oobsize = some b) :
    b.oobsize = oobsize ∧ b.Accepted := by
  unfold boardNandInit at accepted
  split_ifs at accepted with small middle big
  · cases accepted
    subst small
    exact ⟨rfl, rfl, by simp [NfiBoard.eccTotal], by simp [NfiBoard.parityBytes, parityNum,
      BchStrength.parityLen, BchStrength.fieldLen], by simp [parityNum]⟩
  · cases accepted
    subst middle
    exact ⟨rfl, rfl, by simp [NfiBoard.eccTotal], by simp [NfiBoard.parityBytes, parityNum,
      BchStrength.parityLen, BchStrength.fieldLen], by simp [parityNum]⟩
  · cases accepted
    subst big
    exact ⟨rfl, rfl, by simp [NfiBoard.eccTotal], by simp [NfiBoard.parityBytes, parityNum,
      BchStrength.parityLen, BchStrength.fieldLen], by simp [parityNum]⟩
  · cases accepted

def markedRa (ra : Nat → Byte) (k : Nat) : Byte :=
  if (k = 2 ∨ k = 3) ∧ ra k = 0xff then 0 else ra k

namespace NfiBoard

section Write

variable {b : NfiBoard} {s : NfiOob} {parity : Nat → Byte}

theorem markedRa_eq (ra : Nat → Byte) :
    (let ra := if ra 3 = 0xff then Function.update ra 3 0 else ra
      if ra 2 = 0xff then Function.update ra 2 0 else ra) = markedRa ra := by
  have other : (if ra 3 = 0xff then Function.update ra 3 0 else ra) 2 = ra 2 := by
    split_ifs <;> rfl
  funext k
  rw [other]
  unfold markedRa
  by_cases third : k = 3
  · subst third
    split_ifs <;> simp_all
  · by_cases second : k = 2
    · subst second
      split_ifs <;> simp_all
    · split_ifs <;> simp_all

theorem markedRa_congr {ra ra' : Nat → Byte} {k : Nat} (same : ra k = ra' k) :
    markedRa ra k = markedRa ra' k := by
  simp only [markedRa, same]

theorem dmaWrite_eq (h : b.Accepted) (parity : Nat → Byte) (s : NfiOob) :
    let size := b.oobsize % 2 ^ 9
    let ra := fun k => if size - b.eccbytes ≤ k ∧ k < size then
      parity (k - (size - b.eccbytes)) else markedRa s.ra k
    b.dmaWrite parity s = { s with
      ra := ra
      image := fun k => if k < size then ra k else 0xff } := by
  unfold dmaWrite
  rw [h.smraSize, h.parityBytes, ← markedRa_eq]

variable (b parity s) in
def writtenRa (k : Nat) : Byte :=
  let size := b.oobsize % 2 ^ 9
  if size - b.eccbytes ≤ k ∧ k < size then parity (k - (size - b.eccbytes))
  else markedRa (fun k => if k < b.oobsize - b.eccbytes then s.oobPoi k
    else if k < b.oobsize then 0xff else s.ra k) k

theorem write_run (h : b.Accepted) (fits : b.eccbytes ≤ b.oobsize) (parity : Nat → Byte)
    (s : NfiOob) : ∃ t, b.nfiNandWritePageHwecc parity s = some t ∧
      (∀ k, t.image k = if k < b.oobsize % 2 ^ 9 then b.writtenRa s parity k else 0xff) ∧
      (∀ k, t.oobPoi k = if b.eccbytes ≤ k ∧ k < b.eccbytes + b.eccbytes then
        b.writtenRa s parity (b.oobsize - b.eccbytes + (k - b.eccbytes)) else s.oobPoi k) ∧
      t.copies = [(0, b.oobsize - b.eccbytes), (b.eccbytes, b.eccbytes)] := by
  have long : ¬(b.oobsize : Int) - b.eccbytes < 0 := by omega
  unfold nfiNandWritePageHwecc NfiOob.copyToRa
  dsimp only
  rw [h.eccTotal, if_neg long, Int.toNat_sub]
  dsimp only
  rw [dmaWrite_eq h]
  exact ⟨_, rfl, fun _ => rfl, fun _ => rfl, rfl⟩

theorem write_none (h : b.Accepted) (short : b.oobsize < b.eccbytes) (parity : Nat → Byte)
    (s : NfiOob) : b.nfiNandWritePageHwecc parity s = none := by
  have negative : (b.oobsize : Int) - b.eccbytes < 0 := by omega
  unfold nfiNandWritePageHwecc NfiOob.copyToRa
  dsimp only
  rw [h.eccTotal, if_pos negative]

theorem read_run (s : NfiOob) : ∃ u, b.nfiNandReadPageHweccOobFirst s = some u ∧
    (∀ copy, copy ∈ u.copies → copy.1 + copy.2 ≤ b.oobsize) ∧
      ∀ k, k < b.oobsize → u.oobPoi k = s.image k := by
  have long : ¬(b.oobsize : Int) < 0 := by omega
  unfold nfiNandReadPageHweccOobFirst NfiOob.copyToRa
  dsimp only
  rw [if_neg long, Int.toNat_natCast]
  refine ⟨_, rfl, ?_, ?_⟩
  · intro copy mem
    simp [NfiOob.copyToOob] at mem
    rcases mem with rfl | rfl
    all_goals simp
  · intro k inside
    simp [NfiOob.copyToOob, inside]

theorem writtenRa_parity (small : b.oobsize < 2 ^ 9) (fits : b.eccbytes ≤ b.oobsize) {j : Nat}
    (inside : j < b.eccbytes) :
    b.writtenRa s parity (b.oobsize - b.eccbytes + j) = parity j := by
  unfold writtenRa
  rw [Nat.mod_eq_of_lt small, if_pos ⟨by omega, by omega⟩, Nat.add_sub_cancel_left]

theorem writtenRa_front (small : b.oobsize < 2 ^ 9) {k : Nat}
    (front : k < b.oobsize - b.eccbytes) :
    b.writtenRa s parity k = markedRa s.oobPoi k := by
  unfold writtenRa
  dsimp only
  rw [Nat.mod_eq_of_lt small, if_neg (by omega)]
  exact markedRa_congr (if_pos front)

/-- The redundancy is kept exactly where the OOB is twice as long as the parity and the controller
can program all of it, and where the bytes that mark a page as written are set already. -/
theorem write_keeps_oob_iff {writesize oobsize : Nat} {b : NfiBoard}
    (accepted : boardNandInit writesize oobsize = some b) (s : NfiOob) :
    (∀ parity, ∃ t, b.nfiNandWritePageHwecc parity s = some t ∧ b.OobKept parity t) ↔
      oobsize = 2 * b.eccTotal ∧ oobsize < 2 ^ 9 ∧ s.oobPoi 2 ≠ 0xff ∧ s.oobPoi 3 ≠ 0xff := by
  obtain ⟨rfl, h⟩ := boardNandInit_accepted accepted
  have large := h.large
  rw [h.eccTotal]
  constructor
  · intro kept
    have fits : b.eccbytes ≤ b.oobsize := by
      by_contra short
      obtain ⟨t, written, -⟩ := kept fun _ => 0
      rw [write_none h (Nat.lt_of_not_le short)] at written
      cases written
    have twice : b.eccbytes + b.eccbytes ≤ b.oobsize := by
      obtain ⟨t, written, keeps⟩ := kept fun _ => 0
      obtain ⟨t', run, -, -, copies⟩ := write_run h fits (fun _ => 0) s
      cases written.symm.trans run
      exact keeps.inside (b.eccbytes, b.eccbytes) (by rw [copies]; simp)
    have small : b.oobsize < 2 ^ 9 := by
      by_contra beyond
      obtain ⟨t, written, keeps⟩ := kept fun _ => 0
      obtain ⟨t', run, image, -, -⟩ := write_run h fits (fun _ => 0) s
      cases written.symm.trans run
      have low := Nat.mod_lt b.oobsize (show 0 < 2 ^ 9 by decide)
      have last := keeps.parityLast (b.eccbytes - 1) (by rw [h.eccTotal]; omega)
      rw [h.eccTotal, ← keeps.agree _ (by omega), image, if_neg (by omega)] at last
      exact absurd last (by decide)
    have tight : b.oobsize = 2 * b.eccbytes := by
      by_contra loose
      obtain ⟨t, written, keeps⟩ := kept fun _ => s.oobPoi b.eccbytes + 1
      obtain ⟨t', run, image, oobPoi, -⟩ := write_run h fits (fun _ => s.oobPoi b.eccbytes + 1) s
      cases written.symm.trans run
      have here := keeps.agree b.eccbytes (by omega)
      have inFront : b.writtenRa s (fun _ => s.oobPoi b.eccbytes + 1) b.eccbytes =
          s.oobPoi b.eccbytes := by
        rw [writtenRa_front small (by omega), markedRa, if_neg (by omega)]
      rw [image, oobPoi, Nat.mod_eq_of_lt small, if_pos (by omega), if_pos (by omega), Nat.sub_self,
        inFront, writtenRa_parity small fits (by omega)] at here
      exact absurd here (by simp)
    have unmarked (k : Nat) (mark : k = 2 ∨ k = 3) : s.oobPoi k ≠ 0xff := by
      intro blank
      obtain ⟨t, written, keeps⟩ := kept fun _ => 0
      obtain ⟨t', run, image, oobPoi, -⟩ := write_run h fits (fun _ => 0) s
      cases written.symm.trans run
      have here := keeps.agree k (by omega)
      rw [image, oobPoi, Nat.mod_eq_of_lt small, if_pos (by omega), if_neg (by omega),
        writtenRa_front small (by omega), markedRa, if_pos ⟨mark, blank⟩, blank] at here
      exact absurd here (by decide)
    exact ⟨tight, small, unmarked 2 (.inl rfl), unmarked 3 (.inr rfl)⟩
  · rintro ⟨tight, small, second, third⟩ parity
    have fits : b.eccbytes ≤ b.oobsize := by omega
    obtain ⟨t, run, image, oobPoi, copies⟩ := write_run h fits parity s
    have agree : ∀ k, k < b.oobsize → t.image k = t.oobPoi k := by
      intro k inside
      rw [image, oobPoi, Nat.mod_eq_of_lt small, if_pos inside]
      by_cases front : k < b.eccbytes
      · have unmarked : ¬((k = 2 ∨ k = 3) ∧ s.oobPoi k = 0xff) := by
          rintro ⟨rfl | rfl, blank⟩
          · exact second blank
          · exact third blank
        rw [if_neg (by omega), writtenRa_front small (by omega), markedRa, if_neg unmarked]
      · rw [if_pos (by omega), show b.oobsize - b.eccbytes + (k - b.eccbytes) = k by omega]
    refine ⟨t, run, ?_, agree, ?_, ?_⟩
    · intro copy mem
      rw [copies] at mem
      simp only [List.mem_cons, List.not_mem_nil, or_false] at mem
      rcases mem with rfl | rfl
      · dsimp only
        omega
      · dsimp only
        omega
    · intro j inside
      rw [h.eccTotal] at inside ⊢
      rw [oobPoi, if_pos (by omega), show b.oobsize - b.eccbytes + (b.oobsize - b.eccbytes + j -
        b.eccbytes) = b.oobsize - b.eccbytes + j by omega]
      exact writtenRa_parity small fits inside
    · intro ra poi
      obtain ⟨u, read, within, same⟩ := b.read_run { t with ra := ra, oobPoi := poi }
      exact ⟨u, read, within, fun k inside => (same k inside).trans (agree k inside)⟩

/-- Where the redundancy is kept: 120 bytes of it on a page of 2 KB. -/
theorem write_keeps_oob_of_120 : ∃ b, boardNandInit 2048 120 = some b ∧
    ∀ parity, ∃ t, b.nfiNandWritePageHwecc parity ⟨fun _ => 0, fun _ => 0, fun _ => 0xff, []⟩ =
      some t ∧ b.OobKept parity t :=
  ⟨_, rfl, (write_keeps_oob_iff (show boardNandInit 2048 120 = some _ from rfl)
    ⟨fun _ => 0, fun _ => 0, fun _ => 0xff, []⟩).mpr (by decide)⟩

/-- A page of 2 KB with 64 bytes of redundancy: the parity is copied behind them. -/
theorem parity_copied_outside : ∃ b, boardNandInit 2048 64 = some b ∧
    ∀ parity s, ∃ t, b.nfiNandWritePageHwecc parity s = some t ∧ (60, 60) ∈ t.copies ∧
      ¬b.OobKept parity t := by
  refine ⟨_, rfl, ?_⟩
  intro parity s
  obtain ⟨-, h⟩ := boardNandInit_accepted (show boardNandInit 2048 64 = some _ from rfl)
  obtain ⟨t, run, -, -, copies⟩ := write_run h (by decide) parity s
  have behind : (60, 60) ∈ t.copies := by
    rw [copies]
    exact List.mem_cons_of_mem _ (List.mem_singleton_self _)
  exact ⟨t, run, behind, fun kept => absurd (kept.inside (60, 60) behind) (by decide)⟩

end Write

end NfiBoard

end NuMakerMA35
