import NuMakerMA35.NuWriterMtd
import Mathlib.Tactic.Ring

namespace NuMakerMA35

/-- `struct rt_device_blk_geometry`, without the size of an erase block. -/
structure BlkGeometry where
  sectorCount : U32
  bytesPerSector : U32

/-- A block device: whether it tells its geometry, whether there is memory for the sector buffer,
and whether the last one of the sectors written so far is done. -/
structure BlkDevice where
  geometry : Option BlkGeometry
  allocated : Bool
  writes : List Nat → Bool

structure BlkRun where
  content : Nat → BitVec 8
  buffer : Nat → BitVec 8
  touched : List Nat

inductive BlkExit
  | failed
  | crashed
deriving DecidableEq, Repr

namespace BlkRun

def collect (s : BlkRun) (child : PackChild) (off n : Nat) : BlkRun :=
  { s with buffer := fun j => if j < n then child.data (off + j) else s.buffer j }

def touch (s : BlkRun) (sector : Nat) : BlkRun := { s with touched := s.touched ++ [sector] }

def store (s : BlkRun) (size sector : Nat) : BlkRun :=
  { s with content := fun x => if x / size = sector then s.buffer (x % size) else s.content x }

end BlkRun

namespace BlkDevice

variable (dev : BlkDevice)

/-- The loop over `n` more sectors of a child. The sector is an `rt_off_t` of 32 bits. -/
@[grind =] def programSectors (child : PackChild) (size : Nat) :
    Nat → Nat → Nat → BlkRun → Except BlkExit Unit × BlkRun
  | 0, _, _, s => (.ok (), s)
  | n + 1, blkOff, remain, s =>
    let transferBytes := if size ≤ remain then size else remain
    if !dev.allocated then (.error .crashed, s)
    else
      let sector := (child.flashAddress.toNat / size + blkOff) % 2 ^ 32
      let s := (s.collect child (blkOff * size % 2 ^ 32) transferBytes).touch sector
      if dev.writes s.touched then
        programSectors child size n (blkOff + 1) (remain - transferBytes) (s.store size sector)
      else (.error .failed, s)

def programChild (size : Nat) (child : PackChild) (s : BlkRun) : Except BlkExit Unit × BlkRun :=
  dev.programSectors child size (rtAlign child.imageLength.toNat size / size % 2 ^ 32) 0
    (child.imageLength.toNat % 2 ^ 32) s

@[grind =] def programAll (size : Nat) : List PackChild → BlkRun → Except BlkExit Unit × BlkRun
  | [], s => (.ok (), s)
  | child :: children, s =>
    match dev.programChild size child s with
    | (.ok (), s) => programAll size children s
    | (.error exit, s) => (.error exit, s)

/-- The index goes down from the last child; as an `int` it is negative if there are too many. -/
def nuwriterPackProgramBlock (children : List PackChild) (s : BlkRun) :
    Except BlkExit Int × BlkRun :=
  match dev.geometry with
  | none => (.ok (-1), s)
  | some geo =>
    if geo.bytesPerSector = 0 then (.ok (-1), s)
    else if 2 ^ 31 < children.length then (.ok 0, s)
    else
      match dev.programAll geo.bytesPerSector.toNat children.reverse s with
      | (.ok (), s) => (.ok 0, s)
      | (.error .failed, s) => (.ok (-1), s)
      | (.error .crashed, s) => (.error .crashed, s)

end BlkDevice

structure PackRange where
  start : BitVec 64
  length : BitVec 64

def PackChild.range (child : PackChild) : PackRange := ⟨child.flashAddress, child.imageLength⟩

namespace PackRange

def Has (r : PackRange) (x : Nat) : Prop := r.start.toNat ≤ x ∧ x < r.start.toNat + r.length.toNat

def Apart (r r' : PackRange) : Prop := ∀ x, ¬(r.Has x ∧ r'.Has x)

def Inside (geo : BlkGeometry) (r : PackRange) : Prop :=
  r.start.toNat + r.length.toNat ≤ geo.sectorCount.toNat * geo.bytesPerSector.toNat

/-- The image starts with a sector, and the loop counts enough sectors for it. -/
def Whole (size : Nat) (r : PackRange) : Prop :=
  r.start.toNat % size = 0 ∧ r.length.toNat ≤ rtAlign r.length.toNat size / size * size

end PackRange

def HoldsImages (content : Nat → BitVec 8) (children : List PackChild) : Prop :=
  ∀ child ∈ children, ∀ k < child.imageLength.toNat,
    content (child.flashAddress.toNat + k) = child.data k

def TouchesOnly (size : Nat) (ranges : List PackRange) (touched : List Nat) : Prop :=
  ∀ sector ∈ touched, ∃ r ∈ ranges, ∃ x, r.Has x ∧ x / size = sector

/-- Whatever the images, the device's answers and what device and buffer held before. -/
def ProgramsBlocks (geo : BlkGeometry) (ranges : List PackRange) : Prop :=
  ∀ (dev : BlkDevice) (children : List PackChild) (start : BlkRun),
    dev.geometry = some geo → children.map PackChild.range = ranges → start.touched = [] →
    ((dev.nuwriterPackProgramBlock children start).1 = .ok 0 →
      HoldsImages (dev.nuwriterPackProgramBlock children start).2.content children) ∧
    TouchesOnly geo.bytesPerSector.toNat ranges (dev.nuwriterPackProgramBlock children start).2.touched

namespace BlkDevice

section Sectors

variable {dev : BlkDevice} {child : PackChild} {size n blkOff remain : Nat} {s : BlkRun}

/-- The state after a sector was collected, before it is known whether it is done. -/
def filled (child : PackChild) (size blkOff remain : Nat) (s : BlkRun) : BlkRun :=
  (s.collect child (blkOff * size % 2 ^ 32) (min size remain)).touch
    ((child.flashAddress.toNat / size + blkOff) % 2 ^ 32)

theorem programSectors_done (all : dev.allocated = true)
    (done : dev.writes (filled child size blkOff remain s).touched = true) :
    dev.programSectors child size (n + 1) blkOff remain s =
      dev.programSectors child size n (blkOff + 1) (remain - min size remain)
        ((filled child size blkOff remain s).store size
          ((child.flashAddress.toNat / size + blkOff) % 2 ^ 32)) := by
  unfold filled at done ⊢
  rw [min_def] at done ⊢
  rw [programSectors, all]
  dsimp only
  rw [if_neg (by decide), if_pos done]

theorem programSectors_failed (all : dev.allocated = true)
    (failed : dev.writes (filled child size blkOff remain s).touched = false) :
    dev.programSectors child size (n + 1) blkOff remain s =
      (.error .failed, filled child size blkOff remain s) := by
  unfold filled at failed ⊢
  rw [min_def] at failed ⊢
  rw [programSectors, all]
  dsimp only
  rw [if_neg (by decide), failed, if_neg (by decide)]

theorem programSectors_keeps (keeps : BlkRun → Prop) (holds : keeps s)
    (step : ∀ s, keeps s → ∀ blk, blkOff ≤ blk → blk < blkOff + n → ∀ remain,
      keeps (filled child size blk remain s) ∧ keeps ((filled child size blk remain s).store size
        ((child.flashAddress.toNat / size + blk) % 2 ^ 32))) :
    keeps (dev.programSectors child size n blkOff remain s).2 := by
  induction n generalizing blkOff remain s with
  | zero => exact holds
  | succ n ih =>
    have first := step s holds blkOff le_rfl (by omega) remain
    cases all : dev.allocated with
    | false =>
      rw [programSectors, all]
      exact holds
    | true =>
      cases done : dev.writes (filled child size blkOff remain s).touched with
      | true =>
        rw [programSectors_done all done]
        exact ih first.2 fun s holds blk low high => step s holds blk (by omega) (by omega)
      | false =>
        rw [programSectors_failed all done]
        exact first.1

theorem programSectors_ok (all : dev.allocated = true) (takes : ∀ touched, dev.writes touched = true) :
    (dev.programSectors child size n blkOff remain s).1 = .ok () := by
  induction n generalizing blkOff remain s with
  | zero => rfl
  | succ n ih =>
    rw [programSectors_done all (takes _)]
    exact ih

theorem programSectors_ok_succ
    (ends : (dev.programSectors child size (n + 1) blkOff remain s).1 = .ok ()) :
    dev.allocated = true ∧ dev.writes (filled child size blkOff remain s).touched = true := by
  cases all : dev.allocated with
  | false =>
    rw [programSectors, all] at ends
    cases ends
  | true =>
    cases done : dev.writes (filled child size blkOff remain s).touched with
    | true => exact ⟨rfl, rfl⟩
    | false =>
      rw [programSectors_failed all done] at ends
      cases ends

theorem programSectors_other {x : Nat}
    (other : ∀ blk, blkOff ≤ blk → blk < blkOff + n →
      x / size ≠ (child.flashAddress.toNat / size + blk) % 2 ^ 32) :
    (dev.programSectors child size n blkOff remain s).2.content x = s.content x := by
  apply programSectors_keeps (fun s' => s'.content x = s.content x) rfl
  intro s' same blk low high remain
  exact ⟨same, (if_neg (other blk low high)).trans same⟩

theorem programSectors_image (ends : (dev.programSectors child size n blkOff remain s).1 = .ok ())
    (aligned : child.flashAddress.toNat % size = 0) (pos : 0 < size)
    (inSpace : child.flashAddress.toNat / size + blkOff + n ≤ 2 ^ 32)
    (small : (blkOff + n) * size ≤ 2 ^ 32) {k : Nat} (low : blkOff * size ≤ k)
    (high : k < (blkOff + n) * size) (rest : k < blkOff * size + remain) :
    (dev.programSectors child size n blkOff remain s).2.content (child.flashAddress.toNat + k) =
      child.data k := by
  induction n generalizing blkOff remain s with
  | zero =>
    rw [Nat.add_zero] at high
    omega
  | succ n ih =>
    obtain ⟨all, done⟩ := programSectors_ok_succ ends
    rw [programSectors_done all done] at ends ⊢
    have next : (blkOff + 1) * size = blkOff * size + size := Nat.succ_mul _ _
    have total : blkOff + (n + 1) = blkOff + 1 + n := by omega
    have place : (child.flashAddress.toNat + k) / size = child.flashAddress.toNat / size + k / size := by
      obtain ⟨q, at_⟩ := Nat.dvd_of_mod_eq_zero aligned
      rw [at_, Nat.mul_add_div pos, Nat.mul_div_cancel_left q pos]
    by_cases here : k < (blkOff + 1) * size
    · have sector : k / size = blkOff := by
        rw [Nat.div_eq_iff pos]
        omega
      have inside : (child.flashAddress.toNat + k) % size = k - blkOff * size := by
        rw [Nat.add_mod, aligned, Nat.zero_add, Nat.mod_mod]
        have whole := Nat.div_add_mod k size
        rw [sector, Nat.mul_comm] at whole
        omega
      rw [programSectors_other]
      · change (if _ then _ else _) = _
        rw [place, sector, if_pos (Nat.mod_eq_of_lt (by omega)).symm, inside]
        change (if _ then _ else _) = _
        have first : blkOff * size < 2 ^ 32 := by
          have : (blkOff + 1) * size ≤ (blkOff + (n + 1)) * size :=
            Nat.mul_le_mul_right size (by omega)
          omega
        rw [if_pos (by omega), Nat.mod_eq_of_lt first]
        congr 1
        omega
      · intro blk after before
        rw [place, sector, Nat.mod_eq_of_lt (by omega)]
        omega
    · rw [total] at high small
      exact ih ends (by omega) small (by omega) high (by omega)

end Sectors

end BlkDevice

namespace PackRange

variable {r r' : PackRange} {size : Nat}

def Fits (size : Nat) (r : PackRange) : Prop := r.length.toNat = 0 ∨ r.Whole size

def sectors (size : Nat) (r : PackRange) : Nat := rtAlign r.length.toNat size / size

theorem sectors_mul_lt (pos : 0 < size) : r.sectors size * size < 2 ^ 32 :=
  (Nat.div_mul_le_self _ _).trans_lt (rtAlign_lt pos)

theorem sectors_lt (pos : 0 < size) : r.sectors size < 2 ^ 32 :=
  (Nat.le_mul_of_pos_right _ pos).trans_lt (sectors_mul_lt pos)

theorem sector_lt (pos : 0 < size) {k : Nat} (counted : k < r.sectors size) :
    k * size < r.length.toNat := by
  have upTo : (k + 1) * size ≤ r.sectors size * size := Nat.mul_le_mul_right size counted
  have next : (k + 1) * size = k * size + size := Nat.succ_mul _ _
  have rounded : rtAlign r.length.toNat size ≤ r.length.toNat + size - 1 :=
    Nat.and_le_left.trans (Nat.mod_le _ _)
  have part : r.sectors size * size ≤ rtAlign r.length.toNat size := Nat.div_mul_le_self _ _
  omega

theorem Whole.length_lt (whole : r.Whole size) (pos : 0 < size) : r.length.toNat < 2 ^ 32 :=
  whole.2.trans_lt (sectors_mul_lt pos)

theorem Whole.inSpace {geo : BlkGeometry} (whole : r.Whole geo.bytesPerSector.toNat)
    (inside : r.Inside geo) (pos : 0 < geo.bytesPerSector.toNat) (some_ : r.length.toNat ≠ 0) :
    r.start.toNat / geo.bytesPerSector.toNat + r.sectors geo.bytesPerSector.toNat < 2 ^ 32 := by
  obtain ⟨q, at_⟩ := Nat.dvd_of_mod_eq_zero whole.1
  have covers : r.length.toNat ≤ r.sectors geo.bytesPerSector.toNat * geo.bytesPerSector.toNat :=
    whole.2
  have word := geo.sectorCount.isLt
  unfold Inside at inside
  have first : 0 < r.sectors geo.bytesPerSector.toNat := by
    by_contra none
    rw [Nat.eq_zero_of_not_pos none, Nat.zero_mul] at covers
    omega
  have last := sector_lt (r := r) pos (show r.sectors geo.bytesPerSector.toNat - 1 <
    r.sectors geo.bytesPerSector.toNat by omega)
  rw [at_, Nat.mul_div_cancel_left q pos]
  rw [at_] at inside
  have below : (q + (r.sectors geo.bytesPerSector.toNat - 1)) * geo.bytesPerSector.toNat <
      geo.sectorCount.toNat * geo.bytesPerSector.toNat := by
    calc (q + (r.sectors geo.bytesPerSector.toNat - 1)) * geo.bytesPerSector.toNat
        = geo.bytesPerSector.toNat * q +
            (r.sectors geo.bytesPerSector.toNat - 1) * geo.bytesPerSector.toNat := by ring
      _ < geo.bytesPerSector.toNat * q + r.length.toNat := Nat.add_lt_add_left last _
      _ ≤ geo.sectorCount.toNat * geo.bytesPerSector.toNat := inside
  have := Nat.lt_of_mul_lt_mul_right below
  omega

theorem Apart.sectors (apart : r.Apart r') (fits : r.Fits size) (fits' : r'.Fits size) {x y : Nat}
    (has : r.Has x) (has' : r'.Has y) : x / size ≠ y / size := by
  intro same
  have front : ∀ {r : PackRange} {x : Nat}, r.Fits size → r.Has x → r.Has (x / size * size) := by
    intro r x fits has
    unfold Has at has ⊢
    have aligned : r.start.toNat % size = 0 := (fits.resolve_left (by omega)).1
    have below := Nat.div_mul_le_self x size
    have start := Nat.div_mul_cancel (Nat.dvd_of_mod_eq_zero aligned)
    have order : r.start.toNat / size * size ≤ x / size * size :=
      Nat.mul_le_mul_right size (Nat.div_le_div_right has.1)
    omega
  exact apart _ ⟨front fits has, by rw [same]; exact front fits' has'⟩

end PackRange

namespace BlkDevice

section Child

variable {dev : BlkDevice} {child : PackChild} {geo : BlkGeometry} {s : BlkRun}

theorem programChild_eq (size : Nat) (pos : 0 < size) :
    dev.programChild size child s = dev.programSectors child size (child.range.sectors size) 0
      (child.imageLength.toNat % 2 ^ 32) s := by
  have small : child.range.sectors size < 2 ^ 32 := PackRange.sectors_lt pos
  have counted : rtAlign child.imageLength.toNat size / size = child.range.sectors size := rfl
  rw [programChild, counted, Nat.mod_eq_of_lt small]

theorem sectors_empty {r : PackRange} {size : Nat} (pos : 0 < size) (empty : r.length.toNat = 0) :
    r.sectors size = 0 := by
  by_contra some_
  have := PackRange.sector_lt (r := r) pos (k := 0) (Nat.pos_of_ne_zero some_)
  omega

theorem has_sector {r : PackRange} {k : Nat} (fits : r.Fits geo.bytesPerSector.toNat)
    (inside : r.Inside geo) (pos : 0 < geo.bytesPerSector.toNat)
    (counted : k < r.sectors geo.bytesPerSector.toNat) :
    ∃ x, r.Has x ∧ x / geo.bytesPerSector.toNat =
      (r.start.toNat / geo.bytesPerSector.toNat + k) % 2 ^ 32 := by
  have some_ : r.length.toNat ≠ 0 := by
    intro empty
    rw [sectors_empty pos empty] at counted
    omega
  have whole := fits.resolve_left some_
  have room := whole.inSpace inside pos some_
  have below := PackRange.sector_lt (r := r) pos counted
  refine ⟨r.start.toNat + k * geo.bytesPerSector.toNat, ?_, ?_⟩
  · unfold PackRange.Has
    omega
  · rw [Nat.add_mul_div_right _ _ pos, Nat.mod_eq_of_lt (by omega)]

theorem programChild_image (fits : child.range.Fits geo.bytesPerSector.toNat)
    (inside : child.range.Inside geo) (pos : 0 < geo.bytesPerSector.toNat)
    (ends : (dev.programChild geo.bytesPerSector.toNat child s).1 = .ok ()) {k : Nat}
    (low : k < child.imageLength.toNat) :
    (dev.programChild geo.bytesPerSector.toNat child s).2.content (child.flashAddress.toNat + k) =
      child.data k := by
  have whole := fits.resolve_left (show child.imageLength.toNat ≠ 0 by omega)
  have small : child.imageLength.toNat < 2 ^ 32 := whole.length_lt pos
  have room := whole.inSpace inside pos (show child.imageLength.toNat ≠ 0 by omega)
  have word := PackRange.sectors_mul_lt (r := child.range) pos
  have covers : child.imageLength.toNat ≤
      child.range.sectors geo.bytesPerSector.toNat * geo.bytesPerSector.toNat := whole.2
  rw [programChild_eq _ pos] at ends ⊢
  apply programSectors_image ends whole.1 pos
  · exact room.le
  · rw [Nat.zero_add]
    exact word.le
  · omega
  · rw [Nat.zero_add]
    omega
  · rw [Nat.mod_eq_of_lt small]
    omega

theorem programChild_other {x : Nat} (fits : child.range.Fits geo.bytesPerSector.toNat)
    (inside : child.range.Inside geo) (pos : 0 < geo.bytesPerSector.toNat)
    (other : ∀ y, child.range.Has y → x / geo.bytesPerSector.toNat ≠ y / geo.bytesPerSector.toNat) :
    (dev.programChild geo.bytesPerSector.toNat child s).2.content x = s.content x := by
  rw [programChild_eq _ pos]
  apply programSectors_other
  intro blk _ high same
  obtain ⟨y, has, sector⟩ := has_sector fits inside pos (show blk < _ by omega)
  exact other y has (same.trans sector.symm)

theorem programChild_touches {ranges : List PackRange} (listed : child.range ∈ ranges)
    (fits : child.range.Fits geo.bytesPerSector.toNat) (inside : child.range.Inside geo)
    (pos : 0 < geo.bytesPerSector.toNat)
    (only : TouchesOnly geo.bytesPerSector.toNat ranges s.touched) :
    TouchesOnly geo.bytesPerSector.toNat ranges
      (dev.programChild geo.bytesPerSector.toNat child s).2.touched := by
  rw [programChild_eq _ pos]
  apply programSectors_keeps
    (fun s => TouchesOnly geo.bytesPerSector.toNat ranges s.touched) only
  intro s only blk _ high remain
  have more : TouchesOnly geo.bytesPerSector.toNat ranges
      (filled child geo.bytesPerSector.toNat blk remain s).touched := by
    intro sector here
    rcases List.mem_append.mp here with before | now
    · exact only sector before
    · obtain ⟨x, has, at_⟩ := has_sector fits inside pos (show blk < _ by omega)
      rw [List.mem_singleton] at now
      exact ⟨child.range, listed, x, has, at_.trans now.symm⟩
  exact ⟨more, more⟩

end Child

section All

variable {dev : BlkDevice} {child : PackChild} {children : List PackChild} {geo : BlkGeometry}
  {s : BlkRun} {size : Nat}

theorem programAll_cons (ends : (dev.programChild size child s).1 = .ok ()) :
    dev.programAll size (child :: children) s =
      dev.programAll size children (dev.programChild size child s).2 := by
  rw [programAll]
  rcases run : dev.programChild size child s with ⟨result, s'⟩
  rw [run] at ends
  dsimp only at ends ⊢
  rw [ends]

theorem programAll_cons_ok (ends : (dev.programAll size (child :: children) s).1 = .ok ()) :
    (dev.programChild size child s).1 = .ok () := by
  rw [programAll] at ends
  rcases run : dev.programChild size child s with ⟨result, s'⟩
  rw [run] at ends
  cases result with
  | ok => rfl
  | error exit => cases ends

variable (dev children size) in
theorem programAll_keeps (keeps : BlkRun → Prop) (holds : keeps s)
    (step : ∀ child ∈ children, ∀ s, keeps s → keeps (dev.programChild size child s).2) :
    keeps (dev.programAll size children s).2 := by
  induction children generalizing s with
  | nil => exact holds
  | cons child children ih =>
    rw [List.forall_mem_cons] at step
    have first := step.1 s holds
    rw [programAll]
    rcases run : dev.programChild size child s with ⟨result, s'⟩
    rw [run] at first
    cases result with
    | ok => exact ih first step.2
    | error exit => exact first

theorem programAll_ok (all : dev.allocated = true) (takes : ∀ touched, dev.writes touched = true) :
    (dev.programAll size children s).1 = .ok () := by
  induction children generalizing s with
  | nil => rfl
  | cons child children ih =>
    rw [programAll_cons (programSectors_ok all takes)]
    exact ih

theorem programAll_images (pos : 0 < geo.bytesPerSector.toNat)
    (fits : ∀ child ∈ children, child.range.Fits geo.bytesPerSector.toNat)
    (inside : ∀ child ∈ children, child.range.Inside geo)
    (apart : children.Pairwise fun c c' => c.range.Apart c'.range)
    (ends : (dev.programAll geo.bytesPerSector.toNat children s).1 = .ok ()) :
    HoldsImages (dev.programAll geo.bytesPerSector.toNat children s).2.content children := by
  induction children generalizing s with
  | nil => exact fun child here => absurd here List.not_mem_nil
  | cons child children ih =>
    rw [List.forall_mem_cons] at fits inside
    rw [List.pairwise_cons] at apart
    have first := programAll_cons_ok ends
    rw [programAll_cons first] at ends ⊢
    intro c here k low
    rcases List.mem_cons.mp here with rfl | later
    · have has : c.range.Has (c.flashAddress.toNat + k) := by
        unfold PackRange.Has PackChild.range
        dsimp only
        omega
      have kept := programAll_keeps dev children geo.bytesPerSector.toNat
        (fun s' => s'.content (c.flashAddress.toNat + k) = c.data k)
        (programChild_image fits.1 inside.1 pos first low)
      apply kept
      intro c' there s' same
      rw [programChild_other (fits.2 c' there) (inside.2 c' there) pos]
      · exact same
      · intro y has'
        exact (apart.1 c' there).sectors fits.1 (fits.2 c' there) has has'
    · exact ih fits.2 inside.2 apart.2 ends c later k low

end All

section Marked

variable {dev : BlkDevice} {children : List PackChild} {s : BlkRun} {size : Nat}

def Marks (at_ : Nat → Prop) (size : Nat) (s : BlkRun) : Prop :=
  (∀ x, s.content x ≠ 0 → at_ (x % size)) ∧ ∀ j < size, s.buffer j ≠ 0 → at_ j

theorem programChild_marks {at_ : Nat → Prop} {child : PackChild} (pos : 0 < size)
    (data : ∀ blk < child.range.sectors size, ∀ j < size,
      child.data (blk * size + j) ≠ 0 → at_ j)
    (marks : Marks at_ size s) : Marks at_ size (dev.programChild size child s).2 := by
  rw [programChild_eq _ pos]
  apply programSectors_keeps (Marks at_ size) marks
  intro s marks blk _ high remain
  rw [Nat.zero_add] at high
  have word : blk * size < 2 ^ 32 :=
    (Nat.mul_le_mul_right size high.le).trans_lt (PackRange.sectors_mul_lt pos)
  have collected : Marks at_ size (filled child size blk remain s) := by
    refine ⟨marks.1, ?_⟩
    intro j low some_
    change (if j < min size remain then child.data (blk * size % 2 ^ 32 + j) else s.buffer j) ≠ 0
      at some_
    rw [Nat.mod_eq_of_lt word] at some_
    by_cases copied : j < min size remain
    · rw [if_pos copied] at some_
      exact data blk high j low some_
    · rw [if_neg copied] at some_
      exact marks.2 j low some_
  refine ⟨collected, ?_, collected.2⟩
  intro x some_
  change (if x / size = (child.flashAddress.toNat / size + blk) % 2 ^ 32 then
    (filled child size blk remain s).buffer (x % size) else s.content x) ≠ 0 at some_
  by_cases here : x / size = (child.flashAddress.toNat / size + blk) % 2 ^ 32
  · rw [if_pos here] at some_
    exact collected.2 _ (Nat.mod_lt _ pos) some_
  · rw [if_neg here] at some_
    exact marks.1 x some_

end Marked

end BlkDevice

def PackRange.blank (r : PackRange) : PackChild := ⟨r.length, r.start, fun _ => 0⟩

def PackRange.marked (r : PackRange) (k : Nat) : PackChild :=
  ⟨r.length, r.start, fun i => if i = k then 1 else 0⟩

section Property

variable {geo : BlkGeometry} {ranges : List PackRange} {r : PackRange}

theorem bytesPerSector_pos (some_ : geo.bytesPerSector ≠ 0) : 0 < geo.bytesPerSector.toNat :=
  BitVec.toNat_pos_of_ne_zero some_

theorem nuwriterPackProgramBlock_run (dev : BlkDevice) (children : List PackChild) {s : BlkRun}
    (told : dev.geometry = some geo) (some_ : geo.bytesPerSector ≠ 0)
    (few : children.length ≤ 2 ^ 31) :
    (dev.nuwriterPackProgramBlock children s).2 =
        (dev.programAll geo.bytesPerSector.toNat children.reverse s).2 ∧
      ((dev.nuwriterPackProgramBlock children s).1 = .ok 0 ↔
        (dev.programAll geo.bytesPerSector.toNat children.reverse s).1 = .ok ()) := by
  unfold BlkDevice.nuwriterPackProgramBlock
  rw [told]
  dsimp only
  rw [if_neg some_, if_neg (by omega)]
  rcases dev.programAll geo.bytesPerSector.toNat children.reverse s with ⟨result, s'⟩
  match result with
  | .ok () => simp
  | .error .failed => simp
  | .error .crashed => simp

def takesAll (geo : BlkGeometry) : BlkDevice := ⟨some geo, true, fun _ => true⟩

def zeros : BlkRun := ⟨fun _ => 0, fun _ => 0, []⟩

/-- Images of zeros but for the byte `k` of one of them. -/
def markedAmong (front back : List PackRange) (r : PackRange) (k : Nat) : List PackChild :=
  front.map PackRange.blank ++ r.marked k :: back.map PackRange.blank

theorem markedAmong_range (front back : List PackRange) (k : Nat) :
    (markedAmong front back r k).map PackChild.range = front ++ r :: back := by
  have back_ : ∀ l : List PackRange, (l.map PackRange.blank).map PackChild.range = l := by
    intro l
    rw [List.map_map]
    exact List.map_id l
  rw [markedAmong, List.map_append, List.map_cons, back_, back_]
  rfl

theorem whole_of_programs (programs : ProgramsBlocks geo ranges) (some_ : geo.bytesPerSector ≠ 0)
    (here : r ∈ ranges) (bytes : r.length.toNat ≠ 0) :
    ranges.length ≤ 2 ^ 31 ∧ r.Whole geo.bytesPerSector.toNat := by
  have pos := bytesPerSector_pos some_
  obtain ⟨front, back, rfl⟩ := List.append_of_mem here
  have listed : ∀ k, r.marked k ∈ markedAmong front back r k := fun k =>
    List.mem_append_right _ List.mem_cons_self
  have outcome := fun k => programs (takesAll geo) (markedAmong front back r k) zeros rfl
    (markedAmong_range front back k) rfl
  have count : ∀ k, (markedAmong front back r k).length = (front ++ r :: back).length := by
    intro k
    simp [markedAmong]
  by_cases many : 2 ^ 31 < (front ++ r :: back).length
  · have run : (takesAll geo).nuwriterPackProgramBlock (markedAmong front back r 0) zeros =
        (.ok 0, zeros) := by
      unfold BlkDevice.nuwriterPackProgramBlock
      change (if _ then _ else _) = _
      rw [if_neg some_, if_pos (by rw [count]; exact many)]
    have holds := (outcome 0).1 (by rw [run]) _ (listed 0) 0 (Nat.pos_of_ne_zero bytes)
    rw [run] at holds
    exact absurd holds (by simp [zeros, PackRange.marked])
  · have few : (front ++ r :: back).length ≤ 2 ^ 31 := Nat.le_of_not_lt many
    refine ⟨few, ?_⟩
    -- the marked byte has to be among those copied, and in its place within a sector
    have place : ∀ k < r.length.toNat, (r.start.toNat + k) % geo.bytesPerSector.toNat =
        k % geo.bytesPerSector.toNat ∧
        k < r.sectors geo.bytesPerSector.toNat * geo.bytesPerSector.toNat := by
      intro k low
      obtain ⟨state, result⟩ := nuwriterPackProgramBlock_run (takesAll geo)
        (markedAmong front back r k) (s := zeros) rfl some_
        (by rw [count]; exact few)
      have ends : ((takesAll geo).nuwriterPackProgramBlock (markedAmong front back r k) zeros).1 =
          .ok 0 := result.mpr (BlkDevice.programAll_ok rfl fun _ => rfl)
      have holds := (outcome k).1 ends _ (listed k) k low
      have marks := BlkDevice.programAll_keeps (takesAll geo) (markedAmong front back r k).reverse
        geo.bytesPerSector.toNat (s := zeros)
        (BlkDevice.Marks (fun j => j = k % geo.bytesPerSector.toNat ∧
          k < r.sectors geo.bytesPerSector.toNat * geo.bytesPerSector.toNat)
          geo.bytesPerSector.toNat)
        ⟨fun x some_ => absurd rfl some_, fun j _ some_ => absurd rfl some_⟩ (by
          intro child there s marks
          apply BlkDevice.programChild_marks pos _ marks
          intro blk counted j inside some_
          rw [List.mem_reverse, markedAmong, List.mem_append, List.mem_cons] at there
          obtain blank | rfl | blank : (∃ r' : PackRange, r'.blank = child) ∨
              child = r.marked k ∨ ∃ r' : PackRange, r'.blank = child := by
            rcases there with blank | rest
            · obtain ⟨r', -, same⟩ := List.mem_map.mp blank
              exact .inl ⟨r', same⟩
            · rcases rest with same | blank
              · exact .inr (.inl same)
              · obtain ⟨r', -, same⟩ := List.mem_map.mp blank
                exact .inr (.inr ⟨r', same⟩)
          · obtain ⟨r', rfl⟩ := blank
            exact absurd rfl some_
          · have same : blk * geo.bytesPerSector.toNat + j = k := by
              by_contra other
              exact some_ (if_neg other)
            have next : (blk + 1) * geo.bytesPerSector.toNat ≤
                r.sectors geo.bytesPerSector.toNat * geo.bytesPerSector.toNat :=
              Nat.mul_le_mul_right _ counted
            rw [Nat.succ_mul] at next
            refine ⟨?_, by omega⟩
            rw [← same, Nat.mul_comm, Nat.mul_add_mod, Nat.mod_eq_of_lt inside]
          · obtain ⟨r', rfl⟩ := blank
            exact absurd rfl some_)
      rw [state] at holds
      have set : (r.marked k).data k ≠ 0 := by simp [PackRange.marked]
      exact marks.1 (r.start.toNat + k) (fun zero => set (holds.symm.trans zero))
    refine ⟨?_, ?_⟩
    · have first := (place 0 (Nat.pos_of_ne_zero bytes)).1
      rwa [Nat.add_zero, Nat.zero_mod] at first
    · have last := (place (r.length.toNat - 1) (by omega)).2
      change r.length.toNat ≤ r.sectors geo.bytesPerSector.toNat * geo.bytesPerSector.toNat
      omega

/-- The device holds all images whenever the program says so, and no other sector is written,
exactly if each image that has bytes starts with a sector and is counted whole. -/
theorem program_block_iff (geo : BlkGeometry) (ranges : List PackRange)
    (apart : ranges.Pairwise PackRange.Apart) (inside : ∀ r ∈ ranges, r.Inside geo) :
    ProgramsBlocks geo ranges ↔ geo.bytesPerSector = 0 ∨ ∀ r ∈ ranges, r.length.toNat = 0 ∨
      (ranges.length ≤ 2 ^ 31 ∧ r.Whole geo.bytesPerSector.toNat) := by
  constructor
  · intro programs
    by_cases none : geo.bytesPerSector = 0
    · exact .inl none
    · right
      intro r here
      by_cases bytes : r.length.toNat = 0
      · exact .inl bytes
      · exact .inr (whole_of_programs programs none here bytes)
  · intro condition dev children start told same fresh
    subst same
    by_cases none : geo.bytesPerSector = 0
    · have run : dev.nuwriterPackProgramBlock children start = (.ok (-1), start) := by
        unfold BlkDevice.nuwriterPackProgramBlock
        rw [told]
        exact if_pos none
      rw [run, fresh]
      exact ⟨fun zero => absurd zero (by simp), fun sector here => absurd here List.not_mem_nil⟩
    · have pos := bytesPerSector_pos none
      have good := condition.resolve_left none
      by_cases few : children.length ≤ 2 ^ 31
      · obtain ⟨state, result⟩ := nuwriterPackProgramBlock_run _ _ (s := start) told none few
        rw [state, result]
        have fits : ∀ child ∈ children.reverse, child.range.Fits geo.bytesPerSector.toNat := by
          intro child here
          rw [List.mem_reverse] at here
          exact (good _ (List.mem_map_of_mem here)).imp_right And.right
        have within : ∀ child ∈ children.reverse, child.range.Inside geo := by
          intro child here
          rw [List.mem_reverse] at here
          exact inside _ (List.mem_map_of_mem here)
        constructor
        · intro ends child here
          rw [List.pairwise_map] at apart
          have back : children.reverse.Pairwise fun c c' => c.range.Apart c'.range := by
            rw [List.pairwise_reverse]
            exact apart.imp fun both x has => both x has.symm
          exact BlkDevice.programAll_images pos fits within back ends child
            (List.mem_reverse.mpr here)
        · apply BlkDevice.programAll_keeps _ _ _
            (fun s => TouchesOnly geo.bytesPerSector.toNat _ s.touched)
          · rw [fresh]
            exact fun sector here => absurd here List.not_mem_nil
          · intro child here s only
            exact BlkDevice.programChild_touches
              (List.mem_map_of_mem (List.mem_reverse.mp here)) (fits child here)
              (within child here) pos only
      · have run : dev.nuwriterPackProgramBlock children start = (.ok 0, start) := by
          unfold BlkDevice.nuwriterPackProgramBlock
          rw [told]
          dsimp only
          rw [if_neg none, if_pos (by omega)]
        rw [run, fresh]
        refine ⟨fun _ child here k low => ?_, fun sector here => absurd here List.not_mem_nil⟩
        rcases good _ (List.mem_map_of_mem here) with empty | most
        · have : child.imageLength.toNat = 0 := empty
          omega
        · rw [List.length_map] at most
          exact absurd most.1 few

end Property

def sd : BlkGeometry := ⟨1000, 512⟩

theorem two_images_programmed : ProgramsBlocks sd [⟨0, 100⟩, ⟨512, 600⟩] :=
  (program_block_iff sd [⟨0, 100⟩, ⟨512, 600⟩] (by
      refine List.pairwise_pair.mpr fun x both => ?_
      have first := both.1.2
      have second := both.2.1
      change x < 0 + 100 at first
      change 512 ≤ x at second
      omega) (by
      intro r here
      rw [List.mem_pair] at here
      rcases here with rfl | rfl <;> unfold PackRange.Inside <;> decide)).mpr (.inr (by
      intro r here
      rw [List.mem_pair] at here
      rcases here with rfl | rfl <;> exact .inr ⟨by decide, by unfold PackRange.Whole; decide⟩))

/-- One byte at address 100 of the device goes to address 0. -/
theorem unaligned_image_misplaced :
    ¬∀ (geo : BlkGeometry) (ranges : List PackRange), ranges.Pairwise PackRange.Apart →
      (∀ r ∈ ranges, r.Inside geo) → ProgramsBlocks geo ranges := by
  intro all
  have programs := all sd [⟨100, 1⟩] (List.pairwise_singleton _ _) (by
    intro r here
    rw [List.mem_singleton] at here
    rw [here]
    unfold PackRange.Inside
    decide) (takesAll sd) [PackRange.marked ⟨100, 1⟩ 0] zeros rfl rfl rfl
  have ends : ((takesAll sd).nuwriterPackProgramBlock [PackRange.marked ⟨100, 1⟩ 0] zeros).1 =
      .ok 0 := by decide
  have holds := programs.1 ends _ (List.mem_singleton.mpr rfl) 0 (by decide)
  exact absurd holds (by decide)

end NuMakerMA35
