import NuMakerMA35.BitUtil
import Mathlib.Tactic.Ring

namespace NuMakerMA35

structure CcapViewInfo where
  pu8FarmAddr : Nat
  u32Width : U32
  u32Height : U32
  u32PixFmt : U32

structure CcapBinConfig where
  src : CcapViewInfo
  dst : CcapViewInfo
  u32StrideDst : U32
  u32Threshold : U32

def ccapParOutfmtOnlyY : U32 := 1 <<< 4

/-- Memory, the bytes that were stored, and the ranges that were passed to the cache clean. -/
structure CcapMem where
  mem : Nat → BitVec 8
  stored : List Nat
  cleaned : List (Nat × Nat)

def CcapMem.store (s : CcapMem) (addr bytes : Nat) (v : BitVec 8) : CcapMem :=
  { s with
    mem := fun a => if addr ≤ a ∧ a < addr + bytes then v else s.mem a
    stored := s.stored ++ (List.range bytes).map (addr + ·) }

def CcapMem.clean (s : CcapMem) (addr size : Nat) : CcapMem :=
  { s with cleaned := s.cleaned ++ [(addr, size)] }

namespace CcapBinConfig

variable (c : CcapBinConfig)

def turnsW : Nat := c.src.u32Width.toInt.toNat

def turnsH : Nat := c.src.u32Height.toInt.toNat

def dstByte : Nat := if c.dst.u32PixFmt = ccapParOutfmtOnlyY then 1 else 2

def decides (v : BitVec 8) : Bool := (c.u32Threshold &&& 0xFF).toNat < v.toNat

/-- The bytes of an output pixel: `0xFFFF` and `0x0000`, or `0xFF` and `0x00`. -/
def pixelByte (on : Bool) : BitVec 8 := if on then 0xFF else 0

/-- A turn of the inner loop; of the two pointers the one of the format is used. -/
def binTurn (y bv16 bv8 : Nat) (s : CcapMem) (x : Nat) : CcapMem :=
  let v := pixelByte (c.decides (s.mem (c.src.pu8FarmAddr + (y * c.turnsW + x))))
  if c.dstByte = 2 then s.store (bv16 + 2 * (y * c.turnsW + x)) 2 v
  else s.store (bv8 + (y * c.turnsW + x)) 1 v

/-- A turn of the outer loop, which reads the source row from memory: the range that is cleaned starts at the pointer of the two-byte format. -/
def binRow (r : CcapMem × Nat × Nat) (y : Nat) : CcapMem × Nat × Nat :=
  let s := (List.range c.turnsW).foldl (c.binTurn y r.2.1 r.2.2) r.1
  let s := s.clean r.2.1 (c.turnsW * c.dstByte)
  let skip := (c.u32StrideDst - c.src.u32Width).toNat
  if c.dstByte = 2 then (s, r.2.1 + 2 * skip, r.2.2) else (s, r.2.1, r.2.2 + skip)

def binarizationFlush (mem : Nat → BitVec 8) : CcapMem :=
  let start : CcapMem := ⟨mem, [], []⟩
  if c.src.pu8FarmAddr ≠ 0 ∧ c.dst.pu8FarmAddr ≠ 0 then
    ((List.range c.turnsH).foldl c.binRow (start, c.dst.pu8FarmAddr, c.dst.pu8FarmAddr)).1
  else start

def pixelAt (y x b : Nat) : Nat :=
  c.dst.pu8FarmAddr + c.dstByte * (y * c.u32StrideDst.toNat + x) + b

def Inside (y x b : Nat) : Prop :=
  y < c.src.u32Height.toNat ∧ x < c.src.u32Width.toNat ∧ b < c.dstByte

/-- Just the bytes of the output pixels are stored, each has the decision about the source pixel, and
all of them are in ranges that were cleaned. -/
structure Binarizes (mem : Nat → BitVec 8) : Prop where
  stored : ∀ a, a ∈ (c.binarizationFlush mem).stored ↔ ∃ y x b, c.Inside y x b ∧ a = c.pixelAt y x b
  pixels : ∀ y x b, c.Inside y x b → (c.binarizationFlush mem).mem (c.pixelAt y x b) =
    pixelByte (c.decides (mem (c.src.pu8FarmAddr + (y * c.src.u32Width.toNat + x))))
  cleaned : ∀ a ∈ (c.binarizationFlush mem).stored,
    ∃ range ∈ (c.binarizationFlush mem).cleaned, range.1 ≤ a ∧ a < range.1 + range.2

/-- There is no pixel; or there is one row, and where an output pixel lies on a source pixel that is
read after it, both pixels have the same decision. -/
def OneRow (mem : Nat → BitVec 8) : Prop :=
  c.src.u32Width = 0 ∨ c.src.u32Height = 0 ∨
    c.src.u32Height = 1 ∧ c.src.u32Width.toNat < 2 ^ 31 ∧
      ∀ x x' b, x < c.src.u32Width.toNat → x' < x → b < c.dstByte →
        c.src.pu8FarmAddr + x = c.pixelAt 0 x' b →
        c.decides (mem (c.src.pu8FarmAddr + x)) = c.decides (mem (c.src.pu8FarmAddr + x'))

theorem dstByte_cases : c.dstByte = 1 ∨ c.dstByte = 2 := by
  unfold dstByte
  split_ifs
  · exact .inl rfl
  · exact .inr rfl

def bvFarmAddr (bv16 bv8 : Nat) : Nat := if c.dstByte = 2 then bv16 else bv8

section Row

variable {c} {y bv16 bv8 : Nat}

theorem binTurn_eq (s : CcapMem) (x : Nat) : c.binTurn y bv16 bv8 s x =
    s.store (c.bvFarmAddr bv16 bv8 + c.dstByte * (y * c.turnsW + x)) c.dstByte
      (pixelByte (c.decides (s.mem (c.src.pu8FarmAddr + (y * c.turnsW + x))))) := by
  rcases c.dstByte_cases with one | two
  · simp [binTurn, bvFarmAddr, one]
  · simp [binTurn, bvFarmAddr, two]

theorem mem_stored_store {s : CcapMem} {addr bytes a : Nat} {v : BitVec 8} :
    a ∈ (s.store addr bytes v).stored ↔ a ∈ s.stored ∨ ∃ b, b < bytes ∧ a = addr + b := by
  simp [CcapMem.store, eq_comm]

theorem row_stored (s : CcapMem) (n a : Nat) :
    a ∈ ((List.range n).foldl (c.binTurn y bv16 bv8) s).stored ↔ a ∈ s.stored ∨
      ∃ x b, x < n ∧ b < c.dstByte ∧
        a = c.bvFarmAddr bv16 bv8 + c.dstByte * (y * c.turnsW + x) + b := by
  induction n with
  | zero => simp
  | succ n ih =>
    rw [List.range_succ, List.foldl_append, List.foldl_cons, List.foldl_nil, binTurn_eq,
      mem_stored_store, ih, or_assoc]
    refine or_congr_right ?_
    constructor
    · rintro (⟨x, b, inside, byte, same⟩ | ⟨b, byte, same⟩)
      · exact ⟨x, b, by omega, byte, same⟩
      · exact ⟨n, b, by omega, byte, same⟩
    · rintro ⟨x, b, inside, byte, same⟩
      rcases Nat.lt_succ_iff_lt_or_eq.mp inside with before | rfl
      · exact .inl ⟨x, b, before, byte, same⟩
      · exact .inr ⟨b, byte, same⟩

theorem row_cleaned (s : CcapMem) (n : Nat) :
    ((List.range n).foldl (c.binTurn y bv16 bv8) s).cleaned = s.cleaned := by
  induction n with
  | zero => rfl
  | succ n ih =>
    rw [List.range_succ, List.foldl_append, List.foldl_cons, List.foldl_nil, binTurn_eq]
    exact ih

end Row

section Rows

variable {c}

/-- What the pointer of the format is moved by behind each row, in pixels. -/
def skip (c : CcapBinConfig) : Nat := (c.u32StrideDst - c.src.u32Width).toNat

def rows (c : CcapBinConfig) (mem : Nat → BitVec 8) (n : Nat) : CcapMem × Nat × Nat :=
  (List.range n).foldl c.binRow (⟨mem, [], []⟩, c.dst.pu8FarmAddr, c.dst.pu8FarmAddr)

theorem rows_succ (mem : Nat → BitVec 8) (n : Nat) :
    c.rows mem (n + 1) = c.binRow (c.rows mem n) n := by
  rw [rows, List.range_succ, List.foldl_append]
  rfl

theorem rows_pointers (mem : Nat → BitVec 8) (n : Nat) :
    c.bvFarmAddr (c.rows mem n).2.1 (c.rows mem n).2.2 =
        c.dst.pu8FarmAddr + c.dstByte * (n * c.skip) ∧
      (c.rows mem n).2.1 = c.dst.pu8FarmAddr + (if c.dstByte = 2 then 2 * (n * c.skip) else 0) := by
  induction n with
  | zero => simp [rows, bvFarmAddr]
  | succ n ih =>
    rw [rows_succ]
    rcases c.dstByte_cases with one | two
    · simp only [bvFarmAddr, binRow, one, OfNat.one_ne_ofNat, if_false] at ih ⊢
      rw [ih.1, ih.2, ← skip]
      exact ⟨by ring, rfl⟩
    · simp only [bvFarmAddr, binRow, two, if_true] at ih ⊢
      rw [ih.1, ← skip]
      exact ⟨by ring, by ring⟩

theorem binRow_stored (r : CcapMem × Nat × Nat) (y a : Nat) : a ∈ (c.binRow r y).1.stored ↔
    a ∈ ((List.range c.turnsW).foldl (c.binTurn y r.2.1 r.2.2) r.1).stored := by
  unfold binRow
  split_ifs <;> exact Iff.rfl

theorem binRow_cleaned (r : CcapMem × Nat × Nat) (y : Nat) : (c.binRow r y).1.cleaned =
    r.1.cleaned ++ [(r.2.1, c.turnsW * c.dstByte)] := by
  unfold binRow
  split_ifs
  · simp [CcapMem.clean, row_cleaned]
  · simp [CcapMem.clean, row_cleaned]

theorem rows_stored (mem : Nat → BitVec 8) (n a : Nat) : a ∈ (c.rows mem n).1.stored ↔
    ∃ y x b, y < n ∧ x < c.turnsW ∧ b < c.dstByte ∧
      a = c.dst.pu8FarmAddr + c.dstByte * (y * (c.skip + c.turnsW) + x) + b := by
  induction n with
  | zero => simp [rows]
  | succ n ih =>
    have place (x b : Nat) : c.dst.pu8FarmAddr + c.dstByte * (n * c.skip) +
        c.dstByte * (n * c.turnsW + x) + b =
        c.dst.pu8FarmAddr + c.dstByte * (n * (c.skip + c.turnsW) + x) + b := by ring
    rw [rows_succ, binRow_stored, row_stored, ih, (rows_pointers mem n).1]
    simp only [place]
    constructor
    · rintro (⟨y, x, b, row, rest⟩ | ⟨x, b, rest⟩)
      · exact ⟨y, x, b, by omega, rest⟩
      · exact ⟨n, x, b, by omega, rest⟩
    · rintro ⟨y, x, b, row, rest⟩
      rcases Nat.lt_succ_iff_lt_or_eq.mp row with before | rfl
      · exact .inl ⟨y, x, b, before, rest⟩
      · exact .inr ⟨x, b, rest⟩

theorem rows_cleaned (mem : Nat → BitVec 8) (n : Nat) {range : Nat × Nat}
    (cleaned : range ∈ (c.rows mem n).1.cleaned) : ∃ y, y < n ∧
      range = (c.dst.pu8FarmAddr + (if c.dstByte = 2 then 2 * (y * c.skip) else 0),
        c.turnsW * c.dstByte) := by
  induction n with
  | zero => simp [rows] at cleaned
  | succ n ih =>
    rw [rows_succ, binRow_cleaned, List.mem_append, List.mem_singleton] at cleaned
    rcases cleaned with before | here
    · obtain ⟨y, row, same⟩ := ih before
      exact ⟨y, by omega, same⟩
    · rw [(rows_pointers mem n).2] at here
      exact ⟨n, by omega, here⟩

end Rows

section Sizes

variable {c}

theorem toInt_turns (v : U32) : v.toInt.toNat = if v.toNat < 2 ^ 31 then v.toNat else 0 := by
  rw [BitVec.toInt_eq_toNat_cond]
  split_ifs <;> omega

theorem skip_add (stride : c.src.u32Width.toNat ≤ c.u32StrideDst.toNat) :
    c.skip + c.src.u32Width.toNat = c.u32StrideDst.toNat := by
  rw [skip, BitVec.toNat_sub_of_le stride, Nat.sub_add_cancel stride]

theorem flush_eq (frames : c.src.pu8FarmAddr ≠ 0 ∧ c.dst.pu8FarmAddr ≠ 0) (mem : Nat → BitVec 8) :
    c.binarizationFlush mem = (c.rows mem c.turnsH).1 := by
  rw [binarizationFlush, if_pos frames]
  rfl

end Sizes

section OneRow

variable {c} {mem : Nat → BitVec 8}

def firstRow (c : CcapBinConfig) (mem : Nat → BitVec 8) (n : Nat) : CcapMem :=
  (List.range n).foldl (c.binTurn 0 c.dst.pu8FarmAddr c.dst.pu8FarmAddr) ⟨mem, [], []⟩

/-- The decision that is made about pixel `n`, of what its byte is by then. -/
def made (c : CcapBinConfig) (mem : Nat → BitVec 8) (n : Nat) : Bool :=
  c.decides ((c.firstRow mem n).mem (c.src.pu8FarmAddr + n))

theorem pixelAt_first (x b : Nat) : c.pixelAt 0 x b = c.dst.pu8FarmAddr + c.dstByte * x + b := by
  simp [pixelAt]

theorem firstRow_succ (n : Nat) : c.firstRow mem (n + 1) =
    (c.firstRow mem n).store (c.pixelAt 0 n 0) c.dstByte (pixelByte (c.made mem n)) := by
  rw [firstRow, List.range_succ, List.foldl_append, List.foldl_cons, List.foldl_nil, binTurn_eq,
    ← firstRow, pixelAt_first, bvFarmAddr, ite_self, Nat.zero_mul, Nat.zero_add, made]
  rfl

theorem pixelAt_inj {x x' b b' : Nat} (byte : b < c.dstByte) (byte' : b' < c.dstByte)
    (same : c.pixelAt 0 x b = c.pixelAt 0 x' b') : x = x' := by
  rw [pixelAt_first, pixelAt_first] at same
  rcases c.dstByte_cases with one | two
  · rw [one] at same byte byte'
    omega
  · rw [two] at same byte byte'
    omega

theorem store_misses {n a : Nat} (other : ∀ b, b < c.dstByte → a ≠ c.pixelAt 0 n b) (s : CcapMem)
    (v : BitVec 8) : (s.store (c.pixelAt 0 n 0) c.dstByte v).mem a = s.mem a := by
  refine if_neg ?_
  rintro ⟨low, high⟩
  refine other (a - c.pixelAt 0 n 0) (by omega) ?_
  rw [pixelAt_first n (_ - _)]
  rw [pixelAt_first n 0] at low ⊢
  omega

theorem firstRow_stored {n x b : Nat} (before : x < n) (byte : b < c.dstByte) :
    (c.firstRow mem n).mem (c.pixelAt 0 x b) = pixelByte (c.made mem x) := by
  induction n with
  | zero => omega
  | succ n ih =>
    rw [firstRow_succ]
    by_cases here : x = n
    · subst here
      refine if_pos ?_
      rw [pixelAt_first, pixelAt_first]
      omega
    · rw [store_misses fun b' byte' same => here (pixelAt_inj byte byte' same)]
      exact ih (by omega)

theorem firstRow_other {n a : Nat}
    (other : ∀ x b, x < n → b < c.dstByte → a ≠ c.pixelAt 0 x b) : (c.firstRow mem n).mem a = mem a := by
  induction n with
  | zero => rfl
  | succ n ih =>
    rw [firstRow_succ]
    rw [store_misses fun b byte => other n b (by omega) byte]
    exact ih fun x b before byte => other x b (by omega) byte

theorem decides_pixelByte (v : BitVec 8) : c.decides (pixelByte (c.decides v)) = c.decides v := by
  have small : (c.u32Threshold &&& 0xFF).toNat ≤ 255 := by
    rw [BitVec.toNat_and]
    exact Nat.and_le_right
  have most := v.isLt
  cases decided : c.decides v with
  | true =>
    have above : (c.u32Threshold &&& 0xFF).toNat < v.toNat := by simpa [decides] using decided
    simp only [decides, pixelByte, if_true, decide_eq_true_eq]
    show _ < 255
    omega
  | false => simp [decides, pixelByte]

theorem made_of_stored {x x' b : Nat} (before : x' < x) (byte : b < c.dstByte)
    (same : c.src.pu8FarmAddr + x = c.pixelAt 0 x' b) : c.made mem x = c.made mem x' := by
  rw [made, same, firstRow_stored before byte]
  exact decides_pixelByte _

/-- All decisions are those about the source exactly if no pixel lies on one of the other decision
that is read later. -/
theorem made_iff (w : Nat) :
    (∀ x, x < w → c.made mem x = c.decides (mem (c.src.pu8FarmAddr + x))) ↔
      ∀ x x' b, x < w → x' < x → b < c.dstByte → c.src.pu8FarmAddr + x = c.pixelAt 0 x' b →
        c.decides (mem (c.src.pu8FarmAddr + x)) = c.decides (mem (c.src.pu8FarmAddr + x')) := by
  constructor
  · intro right x x' b inside before byte same
    rw [← right x inside, ← right x' (by omega)]
    exact made_of_stored before byte same
  · intro agree x
    induction x using Nat.strong_induction_on with
    | _ x ih =>
      intro inside
      by_cases onto : ∃ x' b, x' < x ∧ b < c.dstByte ∧ c.src.pu8FarmAddr + x = c.pixelAt 0 x' b
      · obtain ⟨x', b, before, byte, same⟩ := onto
        rw [made_of_stored before byte same, ih x' before (by omega)]
        exact (agree x x' b inside before byte same).symm
      · rw [made, firstRow_other]
        intro x' b before byte same
        exact onto ⟨x', b, before, byte, same⟩

theorem pixelByte_inj {on on' : Bool} (same : pixelByte on = pixelByte on') : on = on' := by
  revert same
  cases on <;> cases on' <;> decide

theorem rows_one (mem : Nat → BitVec 8) : (c.rows mem 1).1.mem = (c.firstRow mem c.turnsW).mem ∧
    (c.rows mem 1).1.cleaned = [(c.dst.pu8FarmAddr, c.turnsW * c.dstByte)] := by
  have row : c.rows mem 1 =
      c.binRow (⟨mem, [], []⟩, c.dst.pu8FarmAddr, c.dst.pu8FarmAddr) 0 := rows_succ mem 0
  rw [row, binRow_cleaned]
  refine ⟨?_, rfl⟩
  unfold binRow firstRow
  split_ifs <;> rfl

end OneRow

section Law

variable {c} {mem : Nat → BitVec 8}

theorem last_not_cleaned (two : 2 ≤ c.turnsH) (some_ : 1 ≤ c.turnsW) :
    ∃ a ∈ (c.rows mem c.turnsH).1.stored, ∀ range ∈ (c.rows mem c.turnsH).1.cleaned,
      ¬(range.1 ≤ a ∧ a < range.1 + range.2) := by
  obtain ⟨h, rows⟩ : ∃ h, c.turnsH = h + 2 := ⟨c.turnsH - 2, by omega⟩
  obtain ⟨w, width⟩ : ∃ w, c.turnsW = w + 1 := ⟨c.turnsW - 1, by omega⟩
  have last := (rows_stored mem c.turnsH (c.dst.pu8FarmAddr + c.dstByte *
    ((h + 1) * (c.skip + c.turnsW) + w) + (c.dstByte - 1))).mpr
    ⟨h + 1, w, c.dstByte - 1, by omega, by omega, by rcases c.dstByte_cases with b | b <;> omega, rfl⟩
  refine ⟨_, last, ?_⟩
  intro range cleaned
  obtain ⟨y, row, rfl⟩ := rows_cleaned mem c.turnsH cleaned
  rintro ⟨-, inside⟩
  have skipped : y * c.skip ≤ (h + 1) * c.skip := Nat.mul_le_mul_right _ (by omega)
  have behind : c.turnsW ≤ (h + 1) * c.turnsW := Nat.le_mul_of_pos_left _ (by omega)
  have split : (h + 1) * (c.skip + c.turnsW) = (h + 1) * c.skip + (h + 1) * c.turnsW := by ring
  rcases c.dstByte_cases with b | b
  · rw [b] at inside
    simp only [OfNat.one_ne_ofNat, if_false] at inside
    omega
  · rw [b] at inside
    simp only [if_true] at inside
    omega

theorem one_dstByte : 0 < c.dstByte := by
  rcases c.dstByte_cases with b | b <;> omega

theorem not_binarizes_of_none (frames : c.src.pu8FarmAddr ≠ 0 ∧ c.dst.pu8FarmAddr ≠ 0)
    (some_ : 0 < c.src.u32Width.toNat ∧ 0 < c.src.u32Height.toNat)
    (none : c.turnsW = 0 ∨ c.turnsH = 0) : ¬c.Binarizes mem := by
  intro law
  have first := (law.stored (c.pixelAt 0 0 0)).mpr ⟨0, 0, 0, ⟨some_.2, some_.1, one_dstByte⟩, rfl⟩
  rw [flush_eq frames, rows_stored] at first
  obtain ⟨y, x, b, row, column, -⟩ := first
  omega

theorem binarizes_of_empty (frames : c.src.pu8FarmAddr ≠ 0 ∧ c.dst.pu8FarmAddr ≠ 0)
    (empty : ∀ y x b, ¬c.Inside y x b) (none : c.turnsW = 0 ∨ c.turnsH = 0) : c.Binarizes mem := by
  have nothing : ∀ a, a ∉ (c.binarizationFlush mem).stored := by
    intro a stored
    rw [flush_eq frames, rows_stored] at stored
    obtain ⟨y, x, b, row, column, -⟩ := stored
    omega
  refine ⟨?_, ?_, fun a stored => absurd stored (nothing a)⟩
  · intro a
    refine iff_of_false (nothing a) ?_
    rintro ⟨y, x, b, inside, -⟩
    exact empty y x b inside
  · intro y x b inside
    exact absurd inside (empty y x b)

theorem binarizes_one_iff (frames : c.src.pu8FarmAddr ≠ 0 ∧ c.dst.pu8FarmAddr ≠ 0)
    (stride : c.src.u32Width.toNat ≤ c.u32StrideDst.toNat)
    (width : c.turnsW = c.src.u32Width.toNat) (height : c.turnsH = 1)
    (one : c.src.u32Height.toNat = 1) : c.Binarizes mem ↔
      ∀ x, x < c.src.u32Width.toNat → c.made mem x = c.decides (mem (c.src.pu8FarmAddr + x)) := by
  have flush := flush_eq frames mem
  rw [height] at flush
  obtain ⟨final, cleaned⟩ := rows_one (c := c) mem
  have stored (a : Nat) : a ∈ (c.binarizationFlush mem).stored ↔
      ∃ y x b, c.Inside y x b ∧ a = c.pixelAt y x b := by
    rw [flush, rows_stored, width, skip_add stride]
    simp only [Inside, one, pixelAt, and_assoc]
  constructor
  · intro law x inside
    have pixel := law.pixels 0 x 0 ⟨by omega, inside, one_dstByte⟩
    rw [flush, final, firstRow_stored (by omega) one_dstByte, Nat.zero_mul, Nat.zero_add] at pixel
    exact pixelByte_inj pixel
  · intro right
    refine ⟨stored, ?_, ?_⟩
    · rintro y x b ⟨row, column, byte⟩
      obtain rfl : y = 0 := by omega
      rw [flush, final, firstRow_stored (by omega) byte, right x column, Nat.zero_mul, Nat.zero_add]
    · intro a here
      obtain ⟨y, x, b, ⟨row, column, byte⟩, rfl⟩ := (stored a).mp here
      obtain rfl : y = 0 := by omega
      refine ⟨(c.dst.pu8FarmAddr, c.turnsW * c.dstByte), ?_, ?_⟩
      · rw [flush, cleaned]
        exact List.mem_singleton_self _
      · rw [pixelAt_first, width]
        have last : (x + 1) * c.dstByte ≤ c.src.u32Width.toNat * c.dstByte :=
          Nat.mul_le_mul_right _ column
        rw [Nat.succ_mul, Nat.mul_comm x] at last
        exact ⟨by omega, by omega⟩

end Law

end CcapBinConfig

open CcapBinConfig

/-- The binarisation stores and cleans just its pixels exactly if there is no pixel, or one row whose
output spares the source bytes that are still to be read. -/
theorem ccap_binarization_iff {c : CcapBinConfig}
    (frames : c.src.pu8FarmAddr ≠ 0 ∧ c.dst.pu8FarmAddr ≠ 0)
    (stride : c.src.u32Width.toNat ≤ c.u32StrideDst.toNat) (mem : Nat → BitVec 8) :
    c.Binarizes mem ↔ c.OneRow mem := by
  have zero (v : U32) : v = 0 ↔ v.toNat = 0 := BitVec.toNat_eq
  have single : c.src.u32Height = 1 ↔ c.src.u32Height.toNat = 1 := BitVec.toNat_eq
  have turnsW := toInt_turns c.src.u32Width
  have turnsH := toInt_turns c.src.u32Height
  rw [← CcapBinConfig.turnsW] at turnsW
  rw [← CcapBinConfig.turnsH] at turnsH
  rw [OneRow, zero, zero, single]
  by_cases none : c.src.u32Width.toNat = 0 ∨ c.src.u32Height.toNat = 0
  · -- no pixel at all
    refine iff_of_true (binarizes_of_empty frames ?_ ?_) (none.imp_right .inl)
    · rintro y x b ⟨row, column, -⟩
      omega
    · split_ifs at turnsW turnsH <;> omega
  · have some_ : 0 < c.src.u32Width.toNat ∧ 0 < c.src.u32Height.toNat := by omega
    by_cases lost : c.turnsW = 0 ∨ c.turnsH = 0
    · -- a size is negative as an `int`
      refine iff_of_false (not_binarizes_of_none frames some_ lost) ?_
      rintro (narrow | low | ⟨one, small, -⟩)
      · omega
      · omega
      · rw [if_pos small] at turnsW
        rw [if_pos (by omega)] at turnsH
        omega
    · have width : c.turnsW = c.src.u32Width.toNat := by split_ifs at turnsW <;> omega
      have height : c.turnsH = c.src.u32Height.toNat := by split_ifs at turnsH <;> omega
      by_cases one : c.src.u32Height.toNat = 1
      · rw [binarizes_one_iff frames stride width (by omega) one, made_iff]
        have small : c.src.u32Width.toNat < 2 ^ 31 := by split_ifs at turnsW <;> omega
        simp only [one, small, true_and]
        constructor
        · exact fun agree => .inr (.inr agree)
        · rintro (narrow | low | agree)
          · omega
          · omega
          · exact agree
      · refine iff_of_false ?_ (by omega)
        intro law
        obtain ⟨a, stored, outside⟩ := @last_not_cleaned c mem (by omega) (by omega)
        rw [← flush_eq frames] at stored outside
        obtain ⟨range, cleaned, inside⟩ := law.cleaned a stored
        exact outside range cleaned inside

theorem ccap_binarization_iff_row :
    (CcapBinConfig.mk ⟨0x1000, 3, 1, 0⟩ ⟨0x2000, 3, 1, 0⟩ 4 100).Binarizes (fun _ => 0) ↔
      (CcapBinConfig.mk ⟨0x1000, 3, 1, 0⟩ ⟨0x2000, 3, 1, 0⟩ 4 100).OneRow (fun _ => 0) :=
  ccap_binarization_iff (by decide) (by decide) _

/-- Of two rows of one pixel each the second is not cleaned. -/
theorem secondRow_not_cleaned :
    ¬(CcapBinConfig.mk ⟨0x1000, 1, 2, 0⟩ ⟨0x2000, 1, 2, 0⟩ 1 100).Binarizes (fun _ => 0) := by
  intro law
  obtain ⟨range, cleaned, inside⟩ := law.cleaned 0x2002 (by decide)
  revert range
  decide

end NuMakerMA35
