import Mathlib.Algebra.Group.Nat.Defs
import Mathlib.Data.List.GetD
import Mathlib.Data.List.Range
import Mathlib.Logic.Function.Basic

namespace NuMakerMA35.Words

abbrev Mem := Nat → BitVec 8

def read32 (mem : Mem) (a : Nat) : BitVec 32 :=
  mem (a + 3) ++ mem (a + 2) ++ mem (a + 1) ++ mem a

def write32 (mem : Mem) (a : Nat) (v : BitVec 32) : Mem := fun x =>
  if x = a then v.extractLsb' 0 8
  else if x = a + 1 then v.extractLsb' 8 8
  else if x = a + 2 then v.extractLsb' 16 8
  else if x = a + 3 then v.extractLsb' 24 8
  else mem x

theorem write32_outside {mem : Mem} {a x : Nat} (v : BitVec 32) (h : x < a ∨ a + 4 ≤ x) :
    write32 mem a v x = mem x := by
  unfold write32
  rw [if_neg (by omega), if_neg (by omega), if_neg (by omega), if_neg (by omega)]

theorem read32_congr {mem mem' : Mem} {a : Nat} (h : ∀ x, a ≤ x → x < a + 4 → mem' x = mem x) :
    read32 mem' a = read32 mem a := by
  unfold read32
  rw [h a (by omega) (by omega), h (a + 1) (by omega) (by omega), h (a + 2) (by omega) (by omega),
    h (a + 3) (by omega) (by omega)]

theorem read32_write32 (mem : Mem) (a : Nat) (v : BitVec 32) : read32 (write32 mem a v) a = v := by
  apply BitVec.eq_of_getLsbD_eq
  intro i hi
  simp only [read32, write32, if_true, show ¬a + 3 = a by omega, show ¬a + 3 = a + 1 by omega,
    show ¬a + 3 = a + 2 by omega, show ¬a + 2 = a by omega, show ¬a + 2 = a + 1 by omega,
    show ¬a + 1 = a by omega, if_false, BitVec.getLsbD_append, BitVec.getLsbD_extractLsb']
  by_cases first : i < 8
  · simp [first]
  · by_cases second : i < 16
    · simp [first, show i - 8 < 8 by omega, show 8 + (i - 8) = i by omega]
    · by_cases third : i < 24
      · simp [first, show ¬i - 8 < 8 by omega, show i - 8 - 8 < 8 by omega,
          show 16 + (i - 8 - 8) = i by omega]
      · simp [first, show ¬i - 8 < 8 by omega, show ¬i - 8 - 8 < 8 by omega,
          show i - 8 - 8 - 8 < 8 by omega, show 24 + (i - 8 - 8 - 8) = i by omega]

theorem read32_write32_other {mem : Mem} {a b : Nat} (v : BitVec 32) (h : b + 4 ≤ a ∨ a + 4 ≤ b) :
    read32 (write32 mem a v) b = read32 mem b := by
  apply read32_congr
  intro x low high
  exact write32_outside v (by omega)

theorem read32_update {mem : Mem} {x a : Nat} (v : BitVec 8) (h : x < a ∨ a + 4 ≤ x) :
    read32 (Function.update mem x v) a = read32 mem a := by
  apply read32_congr
  intro y low high
  have other : y ≠ x := by omega
  simp [other]

theorem read32_byte {mem : Mem} {a i : Nat} (h : i < 4) :
    (read32 mem a).extractLsb' (i * 8) 8 = mem (a + i) := by
  unfold read32
  obtain rfl | rfl | rfl | rfl : i = 0 ∨ i = 1 ∨ i = 2 ∨ i = 3 := by omega
  · exact BitVec.extractLsb'_append_eq_right
  · rw [BitVec.extractLsb'_append_eq_of_le (by decide)]
    exact BitVec.extractLsb'_append_eq_right
  · rw [BitVec.extractLsb'_append_eq_of_le (by decide),
      BitVec.extractLsb'_append_eq_of_le (by decide)]
    exact BitVec.extractLsb'_append_eq_right
  · rw [BitVec.extractLsb'_append_eq_of_le (by decide),
      BitVec.extractLsb'_append_eq_of_le (by decide)]
    exact BitVec.extractLsb'_append_eq_left

def slice (mem : Mem) (a n : Nat) : List (BitVec 8) := (List.range n).map fun i => mem (a + i)

def blit (mem : Mem) (a : Nat) (bs : List (BitVec 8)) : Mem := fun x =>
  if a ≤ x ∧ x < a + bs.length then bs.getD (x - a) 0 else mem x

@[simp] theorem slice_length (mem : Mem) (a n : Nat) : (slice mem a n).length = n := by
  simp [slice]

theorem slice_congr {mem mem' : Mem} {a n : Nat} (h : ∀ x, a ≤ x → x < a + n → mem' x = mem x) :
    slice mem' a n = slice mem a n := by
  apply List.map_congr_left
  intro i hi
  have below := List.mem_range.mp hi
  exact h (a + i) (by omega) (by omega)

theorem slice_take (mem : Mem) (a : Nat) {m n : Nat} (h : m ≤ n) :
    (slice mem a n).take m = slice mem a m := by
  unfold slice
  rw [← List.map_take, List.take_range, Nat.min_eq_left h]

theorem blit_outside {mem : Mem} {a x : Nat} {bs : List (BitVec 8)}
    (h : x < a ∨ a + bs.length ≤ x) : blit mem a bs x = mem x := if_neg (by omega)

theorem slice_blit (mem : Mem) (a : Nat) (bs : List (BitVec 8)) :
    slice (blit mem a bs) a bs.length = bs := by
  apply List.ext_getElem
  · simp
  · intro i hi hb
    simp [slice, blit, hb]

theorem slice_blit_outside {mem : Mem} {a b n : Nat} {bs : List (BitVec 8)}
    (h : b + n ≤ a ∨ a + bs.length ≤ b) : slice (blit mem a bs) b n = slice mem b n := by
  apply slice_congr
  intro x low high
  exact blit_outside (by omega)

theorem blit_append (mem : Mem) (a : Nat) (xs ys : List (BitVec 8)) :
    blit (blit mem a xs) (a + xs.length) ys = blit mem a (xs ++ ys) := by
  funext x
  unfold blit
  rw [List.length_append]
  by_cases second : a + xs.length ≤ x ∧ x < a + xs.length + ys.length
  · rw [if_pos second, if_pos (by omega), List.getD_append_right _ _ _ _ (by omega)]
    congr 1
    omega
  · rw [if_neg second]
    by_cases first : a ≤ x ∧ x < a + xs.length
    · rw [if_pos first, if_pos (by omega), List.getD_append _ _ _ _ (by omega)]
    · rw [if_neg first, if_neg (by omega)]

end NuMakerMA35.Words
